/-
What a run leaves behind. The stages of a run are one report
(`Session.compileFile_eq`), and they are those of `compile` with what is
printed in between, so both come to the same text or the same failure
(`Session.result_stages`). A run writes once, as the last thing
that can fail; so a run that fails leaves the files alone
(`Session.Failed`), and one that succeeds has changed a single file
(`Session.Wrote`). Which of them it is depends on three things alone:
the input, what becomes of its text, and the place of the output
(`Session.settle_outcome`).
-/
import TapeAsm.Cli.Session

namespace TapeAsm

-- ============================================================== names

/-- A letter is a path of one part. -/
theorem pathParts_letter {name : String} (h : name ∈ ["a", "b", "c"]) :
    pathParts name = [name] := by
  -- the split at slashes does not reduce by itself, so it is unfolded
  -- once for each letter
  simp only [List.mem_cons, List.not_mem_nil, or_false] at h
  unfold pathParts String.splitOn
  rcases h with rfl | rfl | rfl
  all_goals
    rw [String.splitOnAux, String.splitOnAux]
    rfl

namespace Volume

variable {v : Volume} {name text : String} (hname : name ∈ ["a", "b", "c"])
include hname

/-- A letter leads to the file of that name, if there is one. -/
theorem resolve_letter : v.resolve name
    = .ok (if (v.content? name).isSome then .file name false
      else .vacant true name false) := by
  have hparts := pathParts_letter hname
  have hshort : ∀ name ∈ ["a", "b", "c"],
      ¬ maxPathBytes < name.utf8ByteSize := by decide
  have hplain : ∀ name ∈ ["a", "b", "c"],
      (name = "" || name = ".") = false ∧ name ≠ ".." := by decide
  obtain ⟨hhere, haround⟩ := hplain name hname
  unfold resolve
  rw [if_neg (hshort name hname), hparts]
  split
  · rename_i hcons
    cases hcons
  · simp only [List.foldlM_cons, List.foldlM_nil, enter, hhere,
      Bool.false_eq_true, if_false, if_neg haround]
    cases (v.content? name).isSome with
    | false => rfl
    | true => rfl

theorem readText_letter (h : v.content? name = some (.text text)) :
    v.readText name = .ok text := by
  have hplace : v.resolve name = .ok (.file name false) := by
    rw [resolve_letter hname, h]
    rfl
  unfold readText
  rw [hplace]
  simp only [bind, Except.bind, h]
  rfl

theorem writeText_letter (h : v.content? name = none) :
    v.writeText name text = .ok (v.put name (.text text)) := by
  have hshort : ∀ name ∈ ["a", "b", "c"],
      name.utf8ByteSize ≤ maxNameBytes := by decide
  have hplace : v.resolve name = .ok (.vacant true name false) := by
    rw [resolve_letter hname, h]
    rfl
  unfold writeText
  rw [hplace]
  exact if_pos (hshort name hname)

end Volume

namespace Cli

-- ============================================================ reports

namespace Report

variable {α β : Type}

/-- A report that follows another has the last word. -/
theorem result_bind (r : Report α) (f : α → Report β) :
    (r >>= f).result = r.result >>= fun a => (f a).result := by
  show (Report.bind r f).result = _
  unfold Report.bind
  cases r.result with
  | error e => rfl
  | ok a => rfl

/-- What two reports print is what either of them prints. -/
theorem mem_chunks_bind {c : Chunk} {r : Report α} {f : α → Report β} :
    c ∈ (r >>= f).chunks
      ↔ c ∈ r.chunks ∨ ∃ a, r.result = .ok a ∧ c ∈ (f a).chunks := by
  show c ∈ (Report.bind r f).chunks ↔ _
  unfold Report.bind
  cases r.result with
  | error e => simp
  | ok a => simp

theorem result_sayIf (asked : Bool) (text : String) :
    (sayIf asked text).result = .ok () := by
  cases asked with
  | false => rfl
  | true => rfl

end Report

-- ============================================================= stages

namespace Session

variable (style : Style) (a : Arguments)

theorem result_scan (source : String) :
    (scan style a source).result = .ok (Token.scan source) := by
  unfold scan
  simp only [Report.result_bind, Report.result_sayIf]
  rfl

/-- To read tokens comes to what they spell. -/
theorem result_read (tokens : List Token) :
    (read style a tokens).result
      = (Program.ofTokens tokens).mapError .malformed := by
  unfold read
  simp only [Report.result_bind, Report.result_sayIf]
  show ((Program.ofTokens tokens).mapError _ >>= fun p => .ok p) = _
  cases Program.ofTokens tokens with
  | error cause => rfl
  | ok p => rfl

theorem result_optimize (p : Program) :
    (optimize style a p).result = .ok (p.optimize a.wanted) := rfl

theorem result_assemble (p : Program) :
    (assemble style a p).result
      = .ok ("\n".intercalate (Asm.Listing.ofProgram a.options p).texts) := by
  unfold assemble
  simp only [Report.result_bind, Report.result_sayIf]
  rfl

/-- All stages from text to assembly text. -/
def stages (source : String) : Report String := do
  let tokens ← scan style a source
  let p ← read style a tokens
  let q ← optimize style a p
  assemble style a q

/-- The stages of a run come to what `compile` comes to, as one text. -/
theorem result_stages (source : String) :
    (stages style a source).result
      = (compile source a.options a.wanted).map "\n".intercalate := by
  unfold stages compile
  simp only [Report.result_bind, result_scan, result_read, result_optimize,
    result_assemble]
  show ((Program.ofTokens (Token.scan source)).mapError _ >>= _) = _
  cases Program.ofTokens (Token.scan source) with
  | error cause => rfl
  | ok p => rfl

/-- With the command for it, the assembly text is printed. -/
theorem mem_chunks_stages {source assembly : String}
    (hasm : .asm ∈ a.commands)
    (h : (stages style a source).result = .ok assembly) :
    .text (assembly ++ "\n") ∈ (stages style a source).chunks := by
  cases hp : Program.ofTokens (Token.scan source) with
  | error cause =>
      rw [result_stages, compile, hp] at h
      cases h
  | ok p =>
      have hread : (read style a (Token.scan source)).result = .ok p := by
        rw [result_read, hp]
        rfl
      have hassembly : assembly = "\n".intercalate
          (Asm.Listing.ofProgram a.options (p.optimize a.wanted)).texts := by
        rw [result_stages, compile, hp] at h
        exact (Except.ok.inj h).symm
      have hshown : .text (assembly ++ "\n")
          ∈ (assemble style a (p.optimize a.wanted)).chunks := by
        have hasked : decide (.asm ∈ a.commands) = true :=
          decide_eq_true hasm
        unfold assemble
        simp only [Report.mem_chunks_bind, hasked]
        refine .inr ⟨(), rfl, .inr ⟨(), rfl, .inl ?_⟩⟩
        rw [hassembly]
        exact List.mem_singleton_self _
      unfold stages
      simp only [Report.mem_chunks_bind]
      exact .inr ⟨_, result_scan style a source, .inr ⟨p, hread,
        .inr ⟨_, result_optimize style a p, hshown⟩⟩⟩

end Session

-- ============================================================ actions

namespace Action

variable {State α β γ : Type} {act : Action State α} {s s' s'' : State}

/-- To report one thing after the other is to report both together. -/
theorem report_bind (r : Report α) (f : α → Report β)
    (g : β → Action State γ) :
    report (r >>= f) >>= g = report r >>= fun a => report (f a) >>= g := by
  obtain ⟨chunks, result⟩ := r
  cases result with
  | error e => rfl
  | ok a =>
      refine congrArg Action.mk (funext fun s => ?_)
      match hf : f a with
      | ⟨chunks', .error e⟩ =>
          simp only [report, Bind.bind, Report.bind, Action.bind, hf]
      | ⟨chunks', .ok b⟩ =>
          simp only [report, Bind.bind, Report.bind, Action.bind, hf,
            List.append_assoc]

/-- Where an action fails, nothing that follows is done. -/
theorem run_bind_of_error {chunks : List Chunk} {e : CompileError}
    (h : act.run s = (s', ⟨chunks, .error e⟩)) (f : α → Action State β) :
    (act >>= f).run s = (s', ⟨chunks, .error e⟩) := by
  show (Action.bind act f).run s = _
  simp only [Action.bind, h]

/-- Where an action has a result, the next one begins with the files as
it leaves them. -/
theorem run_bind_of_ok {chunks chunks' : List Chunk} {a : α}
    {result : Except CompileError β} {f : α → Action State β}
    (h : act.run s = (s', ⟨chunks, .ok a⟩))
    (hnext : (f a).run s' = (s'', ⟨chunks', result⟩)) :
    (act >>= f).run s = (s'', ⟨chunks ++ chunks', result⟩) := by
  show (Action.bind act f).run s = _
  simp only [Action.bind, h, hnext]

variable {fs : FileSystem State} {path : String}

theorem run_read_of_error {e : FileError} (h : fs.read s path = .error e) :
    (read fs path).run s = (s, ⟨[], .error (.file e)⟩) := by
  simp only [read, h]
  rfl

theorem run_read_of_ok {text : String} (h : fs.read s path = .ok text) :
    (read fs path).run s = (s, ⟨[], .ok text⟩) := by
  simp only [read, h]
  rfl

/-- A write that fails leaves the files alone. -/
theorem run_write_of_error {text : String} {e : FileError}
    (h : fs.write s path text = .error e) :
    (write fs path text).run s = (s, ⟨[], .error (.file e)⟩) := by
  simp only [write, h]
  rfl

theorem run_write_of_ok {text : String}
    (h : fs.write s path text = .ok s') :
    (write fs path text).run s = (s', ⟨[], .ok ()⟩) := by
  simp only [write, h]
  rfl

end Action

namespace Session

variable {State : Type} {fs : FileSystem State} {style : Style}
  {a : Arguments} {s s' : State} {source assembly : String}

-- ======================================================== compilations

/-- Between the read and the write there is one report. -/
theorem compileFile_eq :
    compileFile fs style a = (do
      Action.report (opening a)
      let source ← Action.read fs a.file
      let assembly ← Action.report (stages style a source)
      Action.write fs a.output assembly
      Action.report (closing style a)) := by
  simp only [stages, Action.report_bind]
  rfl

/-- An input that cannot be read ends the compilation. -/
theorem run_compileFile_unread {e : FileError}
    (h : fs.read s a.file = .error e) :
    ∃ chunks, (compileFile fs style a).run s
      = (s, ⟨chunks, .error (.file e)⟩) := by
  rw [compileFile_eq]
  apply Exists.intro
  apply Action.run_bind_of_ok rfl
  exact Action.run_bind_of_error (Action.run_read_of_error h) _

/-- A report leaves the files alone. -/
theorem run_report_stages {result : Except CompileError String}
    (h : (stages style a source).result = result) (s : State) :
    (Action.report (stages style a source)).run s
      = (s, ⟨(stages style a source).chunks, result⟩) := by
  rw [← h]
  rfl

/-- A stage that fails ends the compilation. -/
theorem run_compileFile_failed {e : CompileError}
    (hread : fs.read s a.file = .ok source)
    (h : (stages style a source).result = .error e) :
    ∃ chunks, (compileFile fs style a).run s
      = (s, ⟨chunks, .error e⟩) := by
  rw [compileFile_eq]
  apply Exists.intro
  apply Action.run_bind_of_ok rfl
  apply Action.run_bind_of_ok (Action.run_read_of_ok hread)
  exact Action.run_bind_of_error (run_report_stages h s) _

/-- An output that cannot be written is all that can still fail. -/
theorem run_compileFile_unwritten {e : FileError}
    (hread : fs.read s a.file = .ok source)
    (h : (stages style a source).result = .ok assembly)
    (hwrite : fs.write s a.output assembly = .error e) :
    ∃ chunks, (compileFile fs style a).run s
      = (s, ⟨chunks, .error (.file e)⟩) := by
  rw [compileFile_eq]
  apply Exists.intro
  apply Action.run_bind_of_ok rfl
  apply Action.run_bind_of_ok (Action.run_read_of_ok hread)
  apply Action.run_bind_of_ok (run_report_stages h s)
  exact Action.run_bind_of_error (Action.run_write_of_error hwrite) _

/-- After the write the compilation is over. -/
theorem run_compileFile_written
    (hread : fs.read s a.file = .ok source)
    (h : (stages style a source).result = .ok assembly)
    (hwrite : fs.write s a.output assembly = .ok s') :
    ∃ chunks, (compileFile fs style a).run s = (s', ⟨chunks, .ok ()⟩)
      ∧ (stages style a source).chunks ⊆ chunks := by
  have hclosing : (Action.report (closing style a)).run s'
      = (s', ⟨(closing style a).chunks, .ok ()⟩) := rfl
  rw [compileFile_eq]
  apply Exists.intro
  constructor
  · apply Action.run_bind_of_ok rfl
    apply Action.run_bind_of_ok (Action.run_read_of_ok hread)
    apply Action.run_bind_of_ok (run_report_stages h s)
    exact Action.run_bind_of_ok (Action.run_write_of_ok hwrite) hclosing
  · intro c hc
    simp [hc]

-- ============================================================ outcomes

/-- The style without colours. -/
def uncolored : Style := ⟨false⟩

/-- A run that fails says why, and leaves the files as they were. -/
structure Failed (fs : FileSystem State) (a : Arguments) (s : State)
    (e : CompileError) : Prop where
  result : ((compileFile fs uncolored a).run s).2.result = .error e
  exitCode : (settle fs uncolored a s).exitCode = 1
  errors : (settle fs uncolored a s).errors
    = "Error: " ++ e.message ++ "\n"
  files : (settle fs uncolored a s).volume = s

/-- A run that succeeds writes a text to the output, and nothing else. -/
structure Wrote (fs : FileSystem State) (a : Arguments) (s : State)
    (assembly : String) : Prop where
  result : ((compileFile fs uncolored a).run s).2.result = .ok ()
  exitCode : (settle fs uncolored a s).exitCode = 0
  errors : (settle fs uncolored a s).errors = ""
  /-- The files are as a single write leaves them. -/
  files : fs.write s a.output assembly
    = .ok (settle fs uncolored a s).volume
  /-- The output holds the text. -/
  output : fs.read (settle fs uncolored a s).volume a.output = .ok assembly
  /-- Only one file is not as it was. -/
  others : ∃ file,
    fs.content? (settle fs uncolored a s).volume file
        = some (.text assembly)
      ∧ ∀ other, other ≠ file →
        fs.content? (settle fs uncolored a s).volume other
          = fs.content? s other
  /-- With the command for it, the text is printed. -/
  shown : .asm ∈ a.commands →
    .text (assembly ++ "\n") ∈ (settle fs uncolored a s).output

/-- A compilation that fails without a change is a run that fails. -/
theorem Failed.of_run {e : CompileError}
    (h : ∃ chunks, (compileFile fs uncolored a).run s
      = (s, ⟨chunks, .error e⟩)) : Failed fs a s e := by
  obtain ⟨chunks, hrun⟩ := h
  have hsettle : settle fs uncolored a s
      = ⟨1, chunks, failure uncolored e, s⟩ := by
    simp only [settle, hrun]
    rfl
  constructor
  · rw [hrun]
  · rw [hsettle]
  · rw [hsettle]
    rfl
  · rw [hsettle]

/-- A compilation that succeeds is a run that succeeds. -/
theorem Wrote.of_run
    (hwrite : fs.write s a.output assembly = .ok s')
    {chunks : List Chunk}
    (hrun : (compileFile fs uncolored a).run s = (s', ⟨chunks, .ok ()⟩))
    (hshown : .asm ∈ a.commands → .text (assembly ++ "\n") ∈ chunks) :
    Wrote fs a s assembly := by
  have hsettle : settle fs uncolored a s = ⟨0, chunks, "", s'⟩ := by
    simp only [settle, hrun]
    rfl
  constructor
  · rw [hrun]
  · rw [hsettle]
  · rw [hsettle]
  · rw [hsettle, hwrite]
  · rw [hsettle]
    exact fs.read_write hwrite
  · rw [hsettle]
    exact fs.written hwrite
  · rw [hsettle]
    exact hshown

/-- The optimizations of some arguments are those that are named, and all
of them on demand. -/
theorem wanted_eq (a : Arguments) :
    a.wanted = a.optimizations
      ++ if a.allOptimizations then Optimization.all else [] := by
  unfold Arguments.wanted
  split
  · rfl
  · rw [List.append_nil]

/-- A run compiles as `compile` does: it fails where the input is not
read, where its text is not compiled or where the output is not written,
and otherwise the output is the lines of the text. -/
theorem settle_outcome (fs : FileSystem State) (a : Arguments) (s : State) :
    match fs.read s a.file with
    | .error e => Failed fs a s (.file e)
    | .ok source =>
      match compile source
          { tapeSize := a.tapeSize, comments := !a.noComments }
          (a.optimizations
            ++ if a.allOptimizations then Optimization.all else []) with
      | .error e => Failed fs a s e
      | .ok lines =>
        match fs.write s a.output ("\n".intercalate lines) with
        | .error e => Failed fs a s (.file e)
        | .ok _ => Wrote fs a s ("\n".intercalate lines) := by
  rw [← wanted_eq]
  cases hread : fs.read s a.file with
  | error e => exact .of_run (run_compileFile_unread hread)
  | ok source =>
      have hstages := result_stages uncolored a source
      show (match compile source a.options a.wanted with
        | .error e => _ | .ok lines => _)
      cases hcompile : compile source a.options a.wanted with
      | error e =>
          rw [hcompile] at hstages
          exact .of_run (run_compileFile_failed hread hstages)
      | ok lines =>
          rw [hcompile] at hstages
          show (match fs.write s a.output _ with
            | .error e => _ | .ok _ => _)
          cases hwrite : fs.write s a.output ("\n".intercalate lines) with
          | error e =>
              exact .of_run (run_compileFile_unwritten hread hstages hwrite)
          | ok s' =>
              obtain ⟨chunks, hrun, hsub⟩ :=
                run_compileFile_written hread hstages hwrite
              refine .of_run hwrite hrun fun hasm => hsub ?_
              exact mem_chunks_stages uncolored a hasm hstages

/-- A file in a directory is compiled to another one, and one with a
loop that is not closed is not. -/
theorem settle_outcome_volume :
    let v : Volume := ⟨[("a", .text "+."), ("b", .text "+[")]⟩
    let p : Program := .run .increment 1 (.run .write 1 .done)
    Wrote Volume.fileSystem { file := "a", output := "c" } v
        ("\n".intercalate (Asm.Listing.ofProgram {} p).texts)
      ∧ Failed Volume.fileSystem { file := "b", output := "c" } v
        (.malformed (.unclosedLoop ⟨1, 2, 1⟩ .endOfInput ⟨1, 3, 2⟩)) := by
  intro v p
  have hgood : v.readText "a" = .ok "+." :=
    Volume.readText_letter (by decide) rfl
  have hbad : v.readText "b" = .ok "+[" :=
    Volume.readText_letter (by decide) rfl
  have hwrite : ∀ text, v.writeText "c" text
      = .ok (v.put "c" (.text text)) :=
    fun _ => Volume.writeText_letter (by decide) rfl
  have hp : Program.ofTokens (Token.scan "+.") = .ok p := rfl
  have hcause : Program.ofTokens (Token.scan "+[")
      = .error (.unclosedLoop ⟨1, 2, 1⟩ .endOfInput ⟨1, 3, 2⟩) := rfl
  constructor
  · have h := Session.settle_outcome Volume.fileSystem
      { file := "a", output := "c" } v
    simp only [Volume.fileSystem, hgood, compile, hp, hwrite] at h
    exact h
  · have h := Session.settle_outcome Volume.fileSystem
      { file := "b", output := "c" } v
    simp only [Volume.fileSystem, hbad, compile, hcause] at h
    exact h

end Session

end Cli

end TapeAsm
