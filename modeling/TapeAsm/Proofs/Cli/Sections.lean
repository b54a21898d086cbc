/-
What the commands change in a run. They print: a run prints the same
parts whatever the commands are, and some of the parts, the sections,
only on demand (`Part`, `printed`). Which sections there are depends on
how far the run comes (`Session.sections`), and each of them stands
behind the line with the time of its stage (`Holds`).

That a family of reports, one for each list of commands, prints the same
parts and has one result (`Report.Offers`) is kept where one report
follows another, and the same goes for actions (`Action.Offers`). A whole
run is put together from that, for each of the places where it can end
(`Session.offers_compileFile`).

The commands are asked only for membership, and so are the optimizations
(`Session.settle_congr`); so their order does not count, and
repetitions do not either.
-/
import TapeAsm.Proofs.Cli.Outcome

namespace TapeAsm.Cli

-- ============================================================== parts

/-- A part of what a run can print: always, or with the command for
it. -/
inductive Part where
  | always (chunk : Chunk)
  | onDemand (command : Command) (text : String)

/-- What is printed of it with some commands. -/
def Part.chunks (commands : List Command) : Part → List Chunk
  | always chunk => [chunk]
  | onDemand command text =>
    if command ∈ commands then [.text text] else []

/-- What is printed of some parts with some commands. -/
def printed (commands : List Command) (parts : List Part) : List Chunk :=
  parts.flatMap (Part.chunks commands)

theorem printed_append (commands : List Command) (parts parts' : List Part) :
    printed commands (parts ++ parts')
      = printed commands parts ++ printed commands parts' :=
  List.flatMap_append

/-- What is printed always is printed whatever the commands are. -/
theorem printed_always (commands : List Command) (chunks : List Chunk) :
    printed commands (chunks.map .always) = chunks := by
  induction chunks with
  | nil => rfl
  | cons chunk chunks ih => exact congrArg (chunk :: ·) ih

/-- Commands count as a set. -/
theorem printed_congr {commands commands' : List Command}
    (h : ∀ c, c ∈ commands ↔ c ∈ commands') (parts : List Part) :
    printed commands parts = printed commands' parts := by
  have hchunks : Part.chunks commands = Part.chunks commands' := by
    funext part
    cases part with
    | always chunk => rfl
    | onDemand command text => simp only [Part.chunks, h]
  rw [printed, hchunks, printed]

/-- A text that can be asked for behind the line with the time of a
stage. -/
structure Section where
  /-- The command for it. -/
  command : Command
  /-- What the line says in front of the time. -/
  finished : String
  text : String

/-- The line, and the section behind it. -/
def Section.parts (x : Section) : List Part :=
  [.always (.text (x.finished ++ " ")), .always .elapsed,
    .always (.text "\n"), .onDemand x.command x.text]

/-- A section prints its time, and its text on demand. -/
theorem printed_parts (commands : List Command) (x : Section) :
    printed commands x.parts
      = [.text (x.finished ++ " "), .elapsed, .text "\n"]
        ++ if x.command ∈ commands then [.text x.text] else [] := by
  rw [← List.append_nil (ite ..)]
  rfl

/-- Parts with some sections in them, in that order. All the rest is
printed always. -/
inductive Holds : List Section → List Part → Prop where
  | none (chunks : List Chunk) : Holds [] (chunks.map .always)
  | next {xs : List Section} {parts : List Part} (chunks : List Chunk)
      (x : Section) (h : Holds xs parts) :
      Holds (x :: xs) (chunks.map .always ++ x.parts ++ parts)

/-- More chunks in front add no section. -/
theorem Holds.always_append {xs : List Section} {parts : List Part}
    (h : Holds xs parts) (chunks : List Chunk) :
    Holds xs (chunks.map .always ++ parts) := by
  cases h with
  | none chunks' =>
      rw [← List.map_append]
      exact .none _
  | next chunks' x h =>
      rw [← List.append_assoc, ← List.append_assoc, ← List.map_append]
      exact .next _ x h

theorem Holds.append {xs ys : List Section} {parts parts' : List Part}
    (h : Holds xs parts) (h' : Holds ys parts') :
    Holds (xs ++ ys) (parts ++ parts') := by
  induction h with
  | none chunks => exact h'.always_append chunks
  | next chunks x _ ih =>
      rw [List.append_assoc]
      exact .next chunks x ih

-- ============================================================ reports

namespace Report

variable {α β : Type}

theorem bind_of_ok {chunks : List Chunk} {v : α} (f : α → Report β) :
    (⟨chunks, .ok v⟩ : Report α) >>= f
      = ⟨chunks ++ (f v).chunks, (f v).result⟩ := rfl

theorem bind_of_error {chunks : List Chunk} {e : CompileError}
    (f : α → Report β) :
    (⟨chunks, .error e⟩ : Report α) >>= f = ⟨chunks, .error e⟩ := rfl

/-- The commands decide which of some sections a report prints, and
nothing else. -/
def Offers (r : List Command → Report α) (xs : List Section)
    (result : Except CompileError α) : Prop :=
  ∃ parts, Holds xs parts
    ∧ ∀ commands, r commands = ⟨printed commands parts, result⟩

namespace Offers

variable {r : List Command → Report α} {xs ys : List Section}

/-- A report that takes no notice of the commands. -/
theorem const (r : Report α) : Offers (fun _ => r) [] r.result :=
  ⟨_, .none r.chunks, fun commands => by rw [printed_always]⟩

/-- Reports that follow each other offer the sections of both. -/
theorem bind {f : List Command → α → Report β} {v : α}
    {result : Except CompileError β} (h : Offers r xs (.ok v))
    (hnext : Offers (f · v) ys result) :
    Offers (fun commands => r commands >>= f commands) (xs ++ ys) result := by
  obtain ⟨parts, hparts, hr⟩ := h
  obtain ⟨parts', hparts', hf⟩ := hnext
  refine ⟨_, hparts.append hparts', fun commands => ?_⟩
  have hf : f commands v = _ := hf commands
  show r commands >>= f commands = _
  rw [hr, bind_of_ok, hf, printed_append]

/-- Where a report fails, what would have followed has no part in it. -/
theorem bind_error {f : List Command → α → Report β} {e : CompileError}
    (h : Offers r xs (.error e)) :
    Offers (fun commands => r commands >>= f commands) xs (.error e) := by
  obtain ⟨parts, hparts, hr⟩ := h
  refine ⟨parts, hparts, fun commands => ?_⟩
  show r commands >>= f commands = _
  rw [hr, bind_of_error]

/-- The line with the time of a stage, a section, and the result of the
stage. -/
theorem finish (x : Section) (v : α) :
    Offers (fun commands => do
      sayElapsed x.finished
      sayIf (x.command ∈ commands) x.text
      return v) [x] (.ok v) := by
  refine ⟨_, .next [] x (.none []), fun commands => ?_⟩
  simp only [List.map_nil, List.nil_append, List.append_nil, printed_parts]
  by_cases h : x.command ∈ commands
  · simp only [h, decide_true, if_true]
    rfl
  · simp only [h, decide_false, if_false]
    rfl

end Offers

end Report

-- ============================================================= stages

namespace Session

variable (style : Style) (a : Arguments)

/-- The dump of tokens, behind the first stage. -/
def tokenSection (source : String) : Section where
  command := .tokens
  finished := style.paint .green "Finished lexing in"
  text := dumpTokens style (Token.scan source)

/-- The outline of the program, behind the second. -/
def astSection (p : Program) : Section where
  command := .ast
  finished := style.paint .green "Finished parsing in"
  text := Outline.pretty p ++ "\n"

/-- The assembly text, behind the last. -/
def asmSection (p : Program) : Section where
  command := .asm
  finished := style.paint .green "Finished codegen with" ++ " "
    ++ toString (Asm.Listing.ofProgram a.options p).texts.length
    ++ " lines in"
  text := "\n".intercalate (Asm.Listing.ofProgram a.options p).texts ++ "\n"

/-- The sections that come about on the way from a text. -/
def stageSections (source : String) : List Section :=
  tokenSection style source ::
    match Program.ofTokens (Token.scan source) with
    | .error _ => []
    | .ok p =>
      [astSection style p, asmSection style a (p.optimize a.wanted)]

theorem offers_scan (source : String) :
    Report.Offers (fun commands => scan style { a with commands } source)
      [tokenSection style source] (.ok (Token.scan source)) :=
  .bind (.const (Report.say _)) (.finish (tokenSection style source) _)

theorem offers_read_of_ok {tokens : List Token} {p : Program}
    (h : Program.ofTokens tokens = .ok p) :
    Report.Offers (fun commands => read style { a with commands } tokens)
      [astSection style p] (.ok p) := by
  unfold read
  rw [h]
  exact .bind (.const (Report.say _)) (.bind (.const (Report.require _))
    (.finish (astSection style p) _))

theorem offers_read_of_error {tokens : List Token} {cause : SyntaxError}
    (h : Program.ofTokens tokens = .error cause) :
    Report.Offers (fun commands => read style { a with commands } tokens)
      [] (.error (.malformed cause)) := by
  unfold read
  rw [h]
  exact .bind (.const (Report.say _)) (.bind_error
    (.const (Report.require _)))

theorem offers_assemble (p : Program) :
    Report.Offers (fun commands => assemble style { a with commands } p)
      [asmSection style a p]
      (.ok ("\n".intercalate (Asm.Listing.ofProgram a.options p).texts)) :=
  .bind (.const (Report.say _)) (.finish (asmSection style a p)
    ("\n".intercalate (Asm.Listing.ofProgram a.options p).texts))

/-- Where the text does not parse, only the tokens can be asked for. -/
theorem offers_stages_of_error {source : String} {cause : SyntaxError}
    (h : Program.ofTokens (Token.scan source) = .error cause) :
    Report.Offers (fun commands => stages style { a with commands } source)
      (stageSections style a source) (.error (.malformed cause)) := by
  unfold stageSections
  rw [h]
  exact (offers_scan style a source).bind
    (.bind_error (offers_read_of_error style a h))

/-- A text that is a program passes all the stages. -/
theorem offers_stages_of_ok {source : String} {p : Program}
    (h : Program.ofTokens (Token.scan source) = .ok p) :
    Report.Offers (fun commands => stages style { a with commands } source)
      (stageSections style a source)
      (.ok ("\n".intercalate (Asm.Listing.ofProgram a.options
        (p.optimize a.wanted)).texts)) := by
  unfold stageSections
  rw [h]
  exact (offers_scan style a source).bind
    ((offers_read_of_ok style a h).bind
      (.bind (.const (optimize style a p)) (offers_assemble style a _)))

end Session

-- ============================================================ actions

namespace Action

variable {State α β : Type} {s s' s'' : State}

/-- The commands decide which of some sections an action prints, and
nothing else. -/
def Offers (act : List Command → Action State α) (s : State)
    (xs : List Section) (s' : State) (result : Except CompileError α) :
    Prop :=
  ∃ parts, Holds xs parts
    ∧ ∀ commands, (act commands).run s
      = (s', ⟨printed commands parts, result⟩)

namespace Offers

variable {xs ys : List Section}

/-- An action that takes no notice of the commands. -/
theorem const {act : Action State α} {chunks : List Chunk}
    {result : Except CompileError α}
    (h : act.run s = (s', ⟨chunks, result⟩)) :
    Offers (fun _ => act) s [] s' result :=
  ⟨_, .none chunks, fun commands => by rw [printed_always, h]⟩

theorem report {r : List Command → Report α}
    {result : Except CompileError α} (h : Report.Offers r xs result)
    (s : State) :
    Offers (fun commands => Action.report (r commands)) s xs s result := by
  obtain ⟨parts, hparts, hr⟩ := h
  exact ⟨parts, hparts, fun commands => congrArg (s, ·) (hr commands)⟩

theorem bind {act : List Command → Action State α} {v : α}
    {f : List Command → α → Action State β}
    {result : Except CompileError β} (h : Offers act s xs s' (.ok v))
    (hnext : Offers (f · v) s' ys s'' result) :
    Offers (fun commands => act commands >>= f commands) s (xs ++ ys) s''
      result := by
  obtain ⟨parts, hparts, hact⟩ := h
  obtain ⟨parts', hparts', hf⟩ := hnext
  refine ⟨_, hparts.append hparts', fun commands => ?_⟩
  rw [printed_append]
  exact run_bind_of_ok (hact commands) (hf commands)

/-- Where an action fails, what would have followed has no part in it. -/
theorem bind_error {act : List Command → Action State α}
    {f : List Command → α → Action State β} {e : CompileError}
    (h : Offers act s xs s' (.error e)) :
    Offers (fun commands => act commands >>= f commands) s xs s'
      (.error e) := by
  obtain ⟨parts, hparts, hact⟩ := h
  exact ⟨parts, hparts, fun commands =>
    run_bind_of_error (hact commands) (f commands)⟩

end Offers

end Action

-- =============================================================== runs

namespace Session

variable {State : Type} (fs : FileSystem State) (style : Style)
  (a : Arguments) (s : State)

/-- The sections that a run comes to: none if the input cannot be
read. -/
def sections : List Section :=
  match fs.read s a.file with
  | .error _ => []
  | .ok source => stageSections style a source

/-- Once there is an assembly text, there is nothing more to ask for. -/
theorem offers_writing (assembly : String) :
    ∃ s' result, Action.Offers
      (fun commands => do
        Action.write fs a.output assembly
        Action.report (closing style { a with commands })) s [] s'
      result := by
  cases hwrite : fs.write s a.output assembly with
  | error e =>
      exact ⟨s, _, .bind_error (.const (Action.run_write_of_error hwrite))⟩
  | ok s' =>
      exact ⟨s', _, .bind (.const (Action.run_write_of_ok hwrite))
        (.report (.const (closing style a)) s')⟩

/-- The commands have a part only in what a compilation prints. -/
theorem offers_compileFile :
    ∃ s' result, Action.Offers
      (fun commands => compileFile fs style { a with commands }) s
      (sections fs style a s) s' result := by
  have hopening : Action.Offers
      (fun commands => Action.report (opening { a with commands })) s [] s
      (.ok ()) :=
    .report (.const (opening a)) s
  simp only [compileFile_eq]
  unfold sections
  cases hread : fs.read s a.file with
  | error e =>
      exact ⟨s, _, hopening.bind
        (.bind_error (.const (Action.run_read_of_error hread)))⟩
  | ok source =>
      have hsource : Action.Offers
          (fun _ : List Command => Action.read fs a.file) s [] s
          (.ok source) :=
        .const (Action.run_read_of_ok hread)
      cases hp : Program.ofTokens (Token.scan source) with
      | error cause =>
          exact ⟨s, _, hopening.bind (hsource.bind (.bind_error
            (.report (offers_stages_of_error style a hp) s)))⟩
      | ok p =>
          obtain ⟨s', result, hwriting⟩ :=
            offers_writing fs style a s ("\n".intercalate
              (Asm.Listing.ofProgram a.options (p.optimize a.wanted)).texts)
          refine ⟨s', result, ?_⟩
          show Action.Offers _ s (stageSections style a source) s' result
          rw [← List.append_nil (stageSections style a source)]
          exact hopening.bind (hsource.bind (.bind
            (.report (offers_stages_of_ok style a hp) s) hwriting))

/-- What a run leaves behind with any commands, up to what it prints, is
what it leaves behind with its own. -/
theorem exists_settle :
    ∃ parts, Holds (sections fs style a s) parts
      ∧ ∀ commands, settle fs style { a with commands } s
        = { settle fs style a s with output := printed commands parts } := by
  obtain ⟨s', result, parts, hparts, hrun⟩ := offers_compileFile fs style a s
  have hself : (compileFile fs style a).run s
      = (s', ⟨printed a.commands parts, result⟩) :=
    hrun a.commands
  refine ⟨parts, hparts, fun commands => ?_⟩
  unfold settle
  rw [hrun, hself]

/-- The stages are passed in turn, and each of them has one section. -/
theorem ordered_sections :
    (sections fs style a s).map (·.command) <+: [.tokens, .ast, .asm] := by
  unfold sections
  cases fs.read s a.file with
  | error e => exact List.nil_prefix
  | ok source =>
      show (stageSections style a source).map (·.command) <+: _
      unfold stageSections
      cases Program.ofTokens (Token.scan source) with
      | error cause => exact ⟨[.ast, .asm], rfl⟩
      | ok p => exact List.prefix_rfl

/-- The optimizations are asked only for membership. -/
theorem settle_congr {optimizations : List Optimization}
    {allOptimizations : Bool}
    (h : ∀ o, o ∈ { a with optimizations, allOptimizations }.wanted
      ↔ o ∈ a.wanted) :
    settle fs style { a with optimizations, allOptimizations } s
      = settle fs style a s := by
  have hoptimize : ∀ p,
      optimize style { a with optimizations, allOptimizations } p
        = optimize style a p := by
    intro p
    simp only [optimize, wantedText, Program.optimize, h]
  have hcompile :
      compileFile fs style { a with optimizations, allOptimizations }
        = compileFile fs style a := by
    simp only [compileFile, compileBy, hoptimize]
    rfl
  rw [settle, hcompile, settle]

-- ============================================================== lists

/-- The commands of a run decide which sections it prints, and nothing
else. -/
structure PrintsOnly : Prop where
  exitCode : ∀ commands, (settle fs style { a with commands } s).exitCode
    = (settle fs style a s).exitCode
  errors : ∀ commands, (settle fs style { a with commands } s).errors
    = (settle fs style a s).errors
  volume : ∀ commands, (settle fs style { a with commands } s).volume
    = (settle fs style a s).volume
  /-- With any commands and with none, the output is the same parts. -/
  output : ∃ parts, Holds (sections fs style a s) parts
    ∧ ∀ commands, (settle fs style { a with commands } s).output
      = printed commands parts
  /-- There is at most one section for each command, in the order of the
  stages. -/
  ordered : (sections fs style a s).map (·.command)
    <+: [.tokens, .ast, .asm]

/-- The lists in the arguments of a run count as sets. -/
structure ListsAsSets : Prop where
  commands : ∀ commands, (∀ c, c ∈ commands ↔ c ∈ a.commands) →
    settle fs style { a with commands } s = settle fs style a s
  optimizations : ∀ optimizations,
    (∀ o, o ∈ optimizations ↔ o ∈ a.optimizations) →
    settle fs style { a with optimizations } s = settle fs style a s
  /-- To name every optimization is to ask for all of them. -/
  everything : ∀ optimizations,
    (∀ o ∈ Optimization.all, o ∈ optimizations) →
    settle fs style
        { a with optimizations, allOptimizations := false } s
      = settle fs style { a with allOptimizations := true } s

/-- Commands only print, and the lists in the arguments count as sets,
whatever becomes of the run. -/
theorem settle_lists : PrintsOnly fs style a s ∧ ListsAsSets fs style a s := by
  obtain ⟨parts, hparts, hsettle⟩ := exists_settle fs style a s
  refine ⟨⟨?exitCode, ?errors, ?volume, ⟨parts, hparts, ?output⟩,
    ordered_sections fs style a s⟩, ⟨?commands, ?optimizations, ?everything⟩⟩
  case exitCode | errors | volume | output =>
    intro commands
    rw [hsettle]
  case commands =>
    intro commands h
    rw [hsettle, printed_congr h, ← hsettle]
  case optimizations =>
    intro optimizations h
    refine settle_congr fs style a s fun o => ?_
    rw [wanted_eq, wanted_eq, List.mem_append, List.mem_append, h]
  case everything =>
    intro optimizations h
    refine settle_congr fs style { a with allOptimizations := true } s
      fun o => ?_
    have hall : o ∈ Optimization.all := o.mem_all
    rw [wanted_eq, wanted_eq, List.mem_append, List.mem_append]
    exact ⟨fun _ => .inr hall, fun _ => .inl (h o hall)⟩

/-- A run that writes passes all three stages with a section, and one on
a loop that is not closed passes the first; for both, the order of the
commands and repetitions make no difference, and without any commands
they end the same way. -/
theorem settle_lists_volume :
    let v : Volume := ⟨[("a", .text "+."), ("b", .text "+[")]⟩
    let good : Arguments :=
      { file := "a", output := "c", commands := [.tokens, .asm] }
    let bad : Arguments := { good with file := "b" }
    let run := fun a => settle Volume.fileSystem uncolored a v
    let passed := fun a =>
      (sections Volume.fileSystem uncolored a v).map (·.command)
    passed good = [.tokens, .ast, .asm]
      ∧ passed bad = [.tokens]
      ∧ run { good with commands := [.asm, .tokens, .asm] } = run good
      ∧ run { bad with commands := [.asm, .tokens, .asm] } = run bad
      ∧ (run { good with commands := [] }).exitCode = 0
      ∧ (run { bad with commands := [] }).exitCode = 1 := by
  intro v good bad run passed
  have hgood : Volume.fileSystem.read v "a" = .ok "+." :=
    Volume.readText_letter (by decide) rfl
  have hbad : Volume.fileSystem.read v "b" = .ok "+[" :=
    Volume.readText_letter (by decide) rfl
  have hwrite : ∀ text, Volume.fileSystem.write v "c" text
      = .ok (v.put "c" (.text text)) :=
    fun _ => Volume.writeText_letter (by decide) rfl
  have hp : Program.ofTokens (Token.scan "+.")
      = .ok (.run .increment 1 (.run .write 1 .done)) := rfl
  have hcause : Program.ofTokens (Token.scan "+[")
      = .error (.unclosedLoop ⟨1, 2, 1⟩ .endOfInput ⟨1, 3, 2⟩) := rfl
  obtain ⟨hprints, hsets⟩ :=
    Session.settle_lists Volume.fileSystem uncolored good v
  obtain ⟨hprints', hsets'⟩ :=
    Session.settle_lists Volume.fileSystem uncolored bad v
  have hsame : ∀ c : Command, c ∈ [.asm, .tokens, .asm]
      ↔ c ∈ [.tokens, .asm] := by
    intro c
    cases c <;> decide
  refine ⟨?_, ?_, hsets.commands _ hsame, hsets'.commands _ hsame, ?_, ?_⟩
  · simp only [passed, sections, good, hgood, stageSections, hp]
    rfl
  · simp only [passed, sections, bad, hbad, stageSections, hcause]
    rfl
  · rw [hprints.exitCode]
    have hstages := result_stages uncolored good "+."
    rw [compile, hp] at hstages
    obtain ⟨chunks, hrun, -⟩ :=
      run_compileFile_written hgood hstages (hwrite _)
    rw [settle, hrun]
    rfl
  · rw [hprints'.exitCode]
    have hstages := result_stages uncolored bad "+["
    rw [compile, hcause] at hstages
    obtain ⟨chunks, hrun⟩ := run_compileFile_failed hbad hstages
    rw [settle, hrun]
    rfl

end Session

end TapeAsm.Cli
