/-
Where the parts of a program stand in its text. Code at a line (`At`) is
run over by single steps: straight on for instructions that do not jump
(`reaches_effects`), to the label for the others.

A program is placed at a line (`Placed`) if its code stands there, up to
the end of the innermost loop around, and what it goes on with behind
that is placed where the jump back leads. Since a loop is entered from
its top only, the program that is left in a loop always ends in the
whole loop again; that is how the steps of `Program.step` leave it too.
What the run meets next is one of four things (`Meets`).

Whatever the program, its lines have few forms: those of the code of
runs (`OfRun`) and those that every loop has (`forall_mem_body`).
-/
import TapeAsm.Proofs.Asm.Effects
import TapeAsm.Proofs.Asm.Labels

namespace TapeAsm.Asm

open StateTransition Relation Machine

-- ===================================================== code at a line

/-- The text has these lines from a line on. -/
def At (code : List Line) (line : Nat) (ls : List Line) : Prop :=
  ls <+: code.drop line

section At

variable {code : List Line} {line : Nat}

theorem At.left {ls ls' : List Line} (h : At code line (ls ++ ls')) :
    At code line ls :=
  (List.prefix_append ls ls').trans h

theorem At.right {ls ls' : List Line} (h : At code line (ls ++ ls')) :
    At code (line + ls.length) ls' := by
  obtain ⟨rest, hrest⟩ := h
  refine ⟨rest, ?_⟩
  rw [← List.drop_drop, ← hrest, List.append_assoc, List.drop_left]

theorem At.tail {l : Line} {ls : List Line} (h : At code line (l :: ls)) :
    At code (line + 1) ls := by
  have hsingle : At code line ([l] ++ ls) := h
  exact hsingle.right

theorem At.getElem? {l : Line} {ls : List Line}
    (h : At code line (l :: ls)) : code[line]? = some l := by
  obtain ⟨rest, hrest⟩ := h
  rw [← List.head?_drop, ← hrest]
  rfl

-- ========================================================== the steps

/-- A label is passed without an effect. -/
theorem step_label {name : String} (h : code[line]? = some (.label name))
    (c : Core) : step code ⟨line, c⟩ = some ⟨line + 1, c⟩ := by
  unfold step
  rw [h]

/-- An instruction that has an effect is no jump. -/
theorem step_effect {i : Instruction} {c c' : Core}
    (h : code[line]? = some (.instruction i))
    (heffect : c.effect i = some c') :
    step code ⟨line, c⟩ = some ⟨line + 1, c'⟩ := by
  unfold step
  rw [h]
  simp only
  split
  · -- `jmp`
    next hmnemonic hoperands =>
    simp [Core.effect, hmnemonic, hoperands] at heffect
  · -- `je`
    next hmnemonic hoperands =>
    simp [Core.effect, hmnemonic, hoperands] at heffect
  · rw [heffect]
    rfl

variable {o : Options} {text name : String}

theorem step_jmp
    (h : code[line]? = some (.instruction (o.comment text (Build.jmp name))))
    {line' : Nat} (htarget : target code name = some line') (c : Core) :
    step code ⟨line, c⟩ = some ⟨line', c⟩ := by
  unfold step
  rw [h]
  simp [Build.jmp, htarget]

/-- A conditional jump is taken if the comparison found both sides equal.
-/
theorem step_je_equal
    (h : code[line]? = some (.instruction (o.comment text (Build.je name))))
    {line' : Nat} (htarget : target code name = some line') {c : Core}
    (hequal : c.equal = true) :
    step code ⟨line, c⟩ = some ⟨line', c⟩ := by
  unfold step
  rw [h]
  simp [Build.je, hequal, htarget]

theorem step_je_unequal
    (h : code[line]? = some (.instruction (o.comment text (Build.je name))))
    {c : Core} (hequal : c.equal ≠ true) :
    step code ⟨line, c⟩ = some ⟨line + 1, c⟩ := by
  unfold step
  rw [h]
  simp [Build.je, hequal]

/-- Instructions that do not jump are run one after the other. What is
to hold along the stretch is asked of the state before each of them. -/
theorem along_effects {holds : Machine → Prop} {is : List Instruction}
    {c c' : Core} (h : At code line (is.map .instruction))
    (heffects : c.effects is = some c')
    (hholds : ∀ done i todo c₁, is = done ++ i :: todo →
      code[line + done.length]? = some (.instruction i) →
      c.effects done = some c₁ → holds ⟨line + done.length, c₁⟩) :
    Along (step code) holds ⟨line, c⟩ ⟨line + is.length, c'⟩ := by
  induction is generalizing line c with
  | nil =>
      cases heffects
      exact .refl
  | cons i is ih =>
      cases heffect : c.effect i with
      | none =>
          rw [Core.effects, List.foldlM_cons, heffect] at heffects
          cases heffects
      | some c₁ =>
          rw [Core.effects_cons heffect] at heffects
          have hfirst : holds ⟨line, c⟩ :=
            hholds [] i is c rfl h.getElem? rfl
          have hrest := ih h.tail heffects fun done j todo c₂ his hj hc₂ => by
            have hline : line + (i :: done).length
                = line + 1 + done.length := by
              rw [List.length_cons]
              omega
            have hlater := hholds (i :: done) j todo c₂ (by rw [his]; rfl)
            rw [hline, Core.effects_cons heffect] at hlater
            exact hlater hj hc₂
          rw [List.length_cons, Nat.add_comm is.length,
            ← Nat.add_assoc]
          exact .head ⟨hfirst, step_effect h.getElem? heffect⟩ hrest

/-- Instructions that do not jump lead from the first line to the line
behind the last. -/
theorem reaches_effects {is : List Instruction} {c c' : Core}
    (h : At code line (is.map .instruction))
    (heffects : c.effects is = some c') :
    Reaches (step code) ⟨line, c⟩ ⟨line + is.length, c'⟩ := by
  have halong : Along (step code) (fun _ => True) ⟨line, c⟩
      ⟨line + is.length, c'⟩ :=
    along_effects h heffects fun _ _ _ _ _ _ _ => trivial
  exact halong.reaches

end At

-- ============================================================== loops

section Loops

variable (o : Options) (number : Nat) (inner : Program)

/-- The instruction at the bottom of a loop. -/
def jumpBack : Instruction :=
  o.comment "]" (Build.jmp (loopLabel number))

/-- The label and the test at the top of a loop. -/
def loopTop : List Line :=
  .label (loopLabel number) :: (loopTest.map .instruction
    ++ [.instruction (o.comment "[" (Build.je (endLabel number)))])

/-- What stands between the test of a loop and its end. -/
def loopRest : List Line :=
  body o number inner ++ [.instruction (jumpBack o number)]

/-- The lines of a loop that are not in its body. -/
def loopFrame : List Line :=
  loopTop o number
    ++ [.instruction (jumpBack o number), .label (endLabel number)]

/-- The code of a loop. -/
def loopCode : List Line :=
  loopTop o number ++ loopRest o number inner ++ [.label (endLabel number)]

/-- A loop is its code and what is behind it, numbered on. -/
theorem body_loop (loops : Nat) (next : Program) :
    body o loops (.loop inner next)
      = loopCode o (loops + 1) inner
        ++ body o (loops + 1 + inner.loops) next := by
  simp [body_loop_lines, loopLines, loopCode, loopTop, loopRest,
    jumpBack]

variable {o number inner} {code : List Line} {top line : Nat}
  {c c' : Core}

/-- From the top of a loop, over the label and the test. -/
theorem along_loopTest {holds : Machine → Prop}
    (h : At code top (loopTop o number))
    (heffects : c.effects loopTest = some c') (hlabel : holds ⟨top, c⟩)
    (htest : ∀ done i todo c₁, loopTest = done ++ i :: todo →
      code[top + 1 + done.length]? = some (.instruction i) →
      c.effects done = some c₁ → holds ⟨top + 1 + done.length, c₁⟩) :
    Along₁ (step code) holds ⟨top, c⟩ ⟨top + 3, c'⟩ :=
  .head' ⟨hlabel, step_label h.getElem? c⟩
    (along_effects h.tail.left heffects htest)

/-- The jump behind the test of a loop. -/
theorem getElem?_loopTop (h : At code top (loopTop o number)) :
    code[top + 3]? = some (.instruction
      (o.comment "[" (Build.je (endLabel number)))) :=
  h.tail.right.getElem?

theorem length_loopTop : (loopTop o number).length = 4 := rfl

/-- The label behind a loop is its last line. -/
theorem length_loopCode : (loopCode o number inner).length
    = (loopTop o number ++ loopRest o number inner).length + 1 := by
  rw [loopCode, List.length_append, List.length_singleton]

theorem at_loopRest (h : At code top (loopCode o number inner)) :
    At code (top + 4) (loopRest o number inner) :=
  h.left.right

/-- A loop that is over is left behind, by way of the label at its
end. -/
theorem step_skip (hlabels : (labels code).Nodup)
    (h : At code top (loopCode o number inner)) (hequal : c.equal = true) :
    step code ⟨top + 3, c⟩
      = some ⟨top + (loopTop o number ++ loopRest o number inner).length,
        c⟩ :=
  step_je_equal (getElem?_loopTop h.left.left)
    (target_eq_some hlabels h.right.getElem?) hequal

/-- From the bottom of a loop, back to its top. -/
theorem step_back (hlabels : (labels code).Nodup)
    (h : At code top (loopCode o number inner))
    (hline : At code line [.instruction (jumpBack o number)]) (c : Core) :
    step code ⟨line, c⟩ = some ⟨top, c⟩ :=
  step_jmp hline.getElem? (target_eq_some hlabels h.left.left.getElem?) c

end Loops

-- ============================================================== lines

/-- The instructions of a run, with its comment. -/
def runLines (o : Options) (op : Op) (count : Nat) : List Instruction :=
  o.commentFirst (runText op count) (runCode op count)

theorem runLines_ne_nil (o : Options) (op : Op) (count : Nat) :
    runLines o op count ≠ [] := by
  have hcode : runCode op count ≠ [] := by
    cases op with
    | moveRight => simp [runCode_moveRight]
    | moveLeft => simp [runCode_moveLeft]
    | increment => simp [runCode_increment]
    | decrement => simp [runCode_decrement]
    | write => simp [runCode_write]
    | read => simp [runCode_read]
  unfold runLines
  cases hcases : runCode op count with
  | nil => exact absurd hcases hcode
  | cons i is => exact List.cons_ne_nil _ _

/-- The instructions that the code of a run is made of. -/
inductive OfRun : Op → Nat → Instruction → Prop where
  | moveRight (count : Nat) : OfRun .moveRight count (addNumber head count)
  | moveLeft (count : Nat) : OfRun .moveLeft count (subNumber head count)
  | increment (count : Nat) :
    OfRun .increment count (addNumber (cell (some .byte)) (count % 256))
  | decrement (count : Nat) :
    OfRun .decrement count (subNumber (cell (some .byte)) (count % 256))
  | push (count : Nat) :
    OfRun .write count (Build.push (cell (some .dword)))
  | write (count : Nat) : OfRun .write count (Build.call writeRoutine)
  | pop (count : Nat) :
    OfRun .write count (Build.pop (.register ⟨.c, .dword⟩))
  | read (count : Nat) : OfRun .read count (Build.call readRoutine)
  | store (count : Nat) :
    OfRun .read count { mnemonic := "mov", operands := [cell none, scratch] }

/-- The forms of an instruction of a run with a number in it. -/
def numberForms (n : Nat) : List Instruction :=
  [head, cell (some .byte)].flatMap fun dst =>
    [{ mnemonic := "add", operands := [dst, .immediate n] },
      { mnemonic := "sub", operands := [dst, .immediate n] }]

/-- The forms of an instruction of a run without a number in it. -/
def plainForms : List Instruction :=
  [head, cell (some .byte)].flatMap (fun dst =>
      [Build.inc dst, Build.dec dst])
    ++ [Build.push (cell (some .dword)), Build.call writeRoutine,
      Build.pop (.register ⟨.c, .dword⟩), Build.call readRoutine,
      { mnemonic := "mov", operands := [cell none, scratch] }]

/-- An instruction of a run has one of few forms. -/
theorem OfRun.form {op : Op} {count : Nat} {i : Instruction}
    (h : OfRun op count i) :
    i ∈ plainForms ∨ ∃ n, i ∈ numberForms n := by
  have hcount : ∀ dst ∈ [head, cell (some .byte)], ∀ n,
      ∀ j ∈ [addNumber dst n, subNumber dst n],
        j ∈ plainForms ∨ ∃ n', j ∈ numberForms n' := by
    intro dst hdst n j hj
    by_cases hone : n = 1
    · simp only [addNumber, subNumber, if_pos hone] at hj
      exact .inl (List.mem_append_left _ (List.mem_flatMap_of_mem hdst hj))
    · simp only [addNumber, subNumber, if_neg hone] at hj
      exact .inr ⟨n, List.mem_flatMap_of_mem hdst hj⟩
  have hhead := hcount head (by decide) count
  have hcell := hcount (cell (some .byte)) (by decide) (count % 256)
  cases h with
  | moveRight => exact hhead _ (by simp)
  | moveLeft => exact hhead _ (by simp)
  | increment => exact hcell _ (by simp)
  | decrement => exact hcell _ (by simp)
  | push => exact .inl (by decide)
  | write => exact .inl (by decide)
  | pop => exact .inl (by decide)
  | read => exact .inl (by decide)
  | store => exact .inl (by decide)

/-- A decidable property of those forms can be checked form by form. -/
theorem OfRun.of_forms {P : Instruction → Prop}
    (hplain : ∀ i ∈ plainForms, P i)
    (hnumber : ∀ n, ∀ i ∈ numberForms n, P i) {op : Op} {count : Nat}
    {i : Instruction} (h : OfRun op count i) : P i := by
  rcases h.form with hi | ⟨n, hi⟩
  · exact hplain i hi
  · exact hnumber n i hi

/-- The mnemonics in the code of runs. -/
def runMnemonics : List String :=
  ["inc", "add", "dec", "sub", "push", "call", "pop", "mov"]

theorem OfRun.mnemonic_mem {op : Op} {count : Nat} {i : Instruction}
    (h : OfRun op count i) : i.mnemonic ∈ runMnemonics := by
  refine of_forms (P := fun i => i.mnemonic ∈ runMnemonics) (by decide)
    ?_ h
  simp [numberForms, runMnemonics]

theorem ofRun_of_mem_runCode {op : Op} {count : Nat} {i : Instruction}
    (h : i ∈ runCode op count) : OfRun op count i := by
  cases op with
  | moveRight =>
      rw [runCode_moveRight, List.mem_singleton] at h
      exact h ▸ .moveRight count
  | moveLeft =>
      rw [runCode_moveLeft, List.mem_singleton] at h
      exact h ▸ .moveLeft count
  | increment =>
      rw [runCode_increment, List.mem_singleton] at h
      exact h ▸ .increment count
  | decrement =>
      rw [runCode_decrement, List.mem_singleton] at h
      exact h ▸ .decrement count
  | write =>
      rw [runCode_write, List.mem_cons, List.mem_append,
        List.mem_replicate, List.mem_singleton] at h
      rcases h with rfl | ⟨-, rfl⟩ | rfl
      · exact .push count
      · exact .write count
      · exact .pop count
  | read =>
      rw [runCode_read, List.mem_append, List.mem_replicate,
        List.mem_singleton] at h
      rcases h with ⟨-, rfl⟩ | rfl
      · exact .read count
      · exact .store count

theorem ofRun_of_mem_runLines {o : Options} {op : Op} {count : Nat}
    {i : Instruction} (h : i ∈ runLines o op count) :
    ∃ j, OfRun op count j
      ∧ i.mnemonic = j.mnemonic ∧ i.operands = j.operands := by
  obtain ⟨j, hj, hsame⟩ := mem_commentFirst h
  exact ⟨j, ofRun_of_mem_runCode hj, hsame⟩

/-- The lines of a program are those of its runs and the frames of its
loops, which are numbered on from those before it. -/
theorem forall_mem_body_of_pieces {o : Options} {P : Line → Prop}
    {loops : Nat} {p : Program}
    (hrun : ∀ op count, .run op count ∈ p.pieces →
      ∀ i ∈ runLines o op count, P (.instruction i))
    (hloop : ∀ number, loops < number → number ≤ loops + p.loops →
      ∀ l ∈ loopFrame o number, P l) :
    ∀ l ∈ body o loops p, P l := by
  induction p generalizing loops with
  | done => exact fun l hl => nomatch hl
  | run op count next ih =>
      intro l hl
      rw [body_run, List.mem_append] at hl
      rcases hl with hl | hl
      · obtain ⟨i, hi, rfl⟩ := List.mem_map.mp hl
        exact hrun op count List.mem_cons_self i hi
      · exact ih (fun op' count' hmem =>
          hrun op' count' (List.mem_cons_of_mem _ hmem)) hloop l hl
  | loop inner next ihInner ih =>
      rw [Program.loops] at hloop
      have hframe : ∀ l ∈ loopFrame o (loops + 1), P l :=
        hloop (loops + 1) (by omega) (by omega)
      have hinner : ∀ l ∈ body o (loops + 1) inner, P l := by
        refine ihInner (fun op count hmem => ?_) fun number hlow hhigh => ?_
        · exact hrun op count (by simp [Program.pieces, hmem])
        · exact hloop number (by omega) (by omega)
      have hnext : ∀ l ∈ body o (loops + 1 + inner.loops) next, P l := by
        refine ih (fun op count hmem => ?_) fun number hlow hhigh => ?_
        · exact hrun op count (by simp [Program.pieces, hmem])
        · exact hloop number (by omega) (by omega)
      rw [loopFrame, List.forall_mem_append] at hframe
      obtain ⟨htop, hbottom⟩ := hframe
      rw [List.forall_mem_cons] at hbottom
      rw [body_loop, loopCode, loopRest]
      simp only [List.forall_mem_append, List.forall_mem_singleton]
      exact ⟨⟨⟨htop, hinner, hbottom.1⟩, hbottom.2 _ (by simp)⟩, hnext⟩

/-- The frame of a loop is its label, its test, its two jumps and its
end. -/
theorem forall_mem_loopFrame {o : Options} {P : Line → Prop} {number : Nat}
    (hlabel : P (.label (loopLabel number)))
    (htest : ∀ i ∈ loopTest, P (.instruction i))
    (hskip : P (.instruction (o.comment "[" (Build.je (endLabel number)))))
    (hback : P (.instruction (jumpBack o number)))
    (hend : P (.label (endLabel number))) :
    ∀ l ∈ loopFrame o number, P l := by
  intro l hl
  rw [loopFrame, loopTop] at hl
  simp only [List.mem_append, List.mem_cons, List.mem_map,
    List.not_mem_nil, or_false] at hl
  rcases hl with (rfl | ⟨i, hi, rfl⟩ | rfl) | rfl | rfl
  · exact hlabel
  · exact htest i hi
  · exact hskip
  · exact hback
  · exact hend

/-- The lines of a program are those of its runs and the label, the test,
the jumps and the end of each loop. -/
theorem forall_mem_body {o : Options} {P : Line → Prop}
    (hrun : ∀ op count, ∀ i ∈ runLines o op count, P (.instruction i))
    (hlabel : ∀ number, P (.label (loopLabel number)))
    (htest : ∀ i ∈ loopTest, P (.instruction i))
    (hskip : ∀ number, P (.instruction
      (o.comment "[" (Build.je (endLabel number)))))
    (hback : ∀ number, P (.instruction (jumpBack o number)))
    (hend : ∀ number, P (.label (endLabel number)))
    (loops : Nat) (p : Program) : ∀ l ∈ body o loops p, P l :=
  forall_mem_body_of_pieces (fun op count _ => hrun op count)
    fun number _ _ => forall_mem_loopFrame (hlabel number) htest
      (hskip number) (hback number) (hend number)

-- ========================================================== placement

/-- A program is placed at a line: its code stands there, followed by the
epilogue, or by the end of a loop whose code stands at its top. -/
inductive Placed (o : Options) (code : List Line) :
    Nat → Program → Prop where
  | outermost {line loops : Nat} {p : Program}
    (h : At code line (body o loops p ++ epilogue.map .instruction)) :
    Placed o code line p
  | within {line top loops number : Nat} {p inner next : Program}
    (hloop : At code top (loopCode o number inner))
    (h : At code line
      (body o loops p ++ [.instruction (jumpBack o number)]))
    (hnext : Placed o code (top + (loopCode o number inner).length) next) :
    Placed o code line (p ++ .loop inner next)

/-- What a run of a text can meet, in a program that is placed there. -/
inductive Meets (o : Options) (code : List Line) :
    Nat → Program → Prop where
  | finish {line : Nat} (h : At code line (epilogue.map .instruction)) :
    Meets o code line .done
  | run {line : Nat} (op : Op) (count : Nat) {p : Program}
    (h : At code line ((runLines o op count).map .instruction))
    (hnext : Placed o code (line + (runLines o op count).length) p) :
    Meets o code line (.run op count p)
  | enter {line number : Nat} {inner p : Program}
    (h : At code line (loopCode o number inner))
    (hnext : Placed o code (line + (loopCode o number inner).length) p) :
    Meets o code line (.loop inner p)
  | back {line top number : Nat} {inner p : Program}
    (h : At code line [.instruction (jumpBack o number)])
    (hloop : At code top (loopCode o number inner))
    (hnext : Placed o code (top + (loopCode o number inner).length) p) :
    Meets o code line (.loop inner p)

/-- Of code that is followed by `tail`, the first part is met. Every
later part is placed as well (`hlater`), and behind all of them the run
meets what `tail` is for (`hend`). -/
private theorem meets_of_at {o : Options} {code tail : List Line}
    {line loops : Nat} {p q : Program}
    (h : At code line (body o loops p ++ tail))
    (hlater : ∀ line' loops' p', At code line' (body o loops' p' ++ tail) →
      Placed o code line' (p' ++ q))
    (hend : At code line tail → Meets o code line q) :
    Meets o code line (p ++ q) := by
  cases p with
  | done => exact hend h
  | run op count next =>
      rw [body_run, List.append_assoc] at h
      have hnext := h.right
      rw [List.length_map] at hnext
      exact .run op count h.left (hlater _ _ _ hnext)
  | loop inner next =>
      rw [body_loop, List.append_assoc] at h
      exact .enter h.left (hlater _ _ _ h.right)

/-- A text is entered at the label behind its directives; the prologue
follows, and then the program. -/
theorem at_entry (o : Options) (loops : Nat) (p : Program) :
    At (unit o loops p) 5 (.label entryLabel :: (prologue.map .instruction
      ++ (body o loops p ++ epilogue.map .instruction))) := by
  rw [unit_eq, List.append_assoc, List.append_assoc]
  exact List.prefix_refl _

/-- Where a program is placed, a run meets its first part. -/
theorem Placed.meets {o : Options} {code : List Line} {line : Nat}
    {p : Program} (h : Placed o code line p) : Meets o code line p := by
  cases h with
  | outermost h =>
      have hlater : ∀ line' loops' p', At code line'
          (body o loops' p' ++ epilogue.map .instruction) →
          Placed o code line' (p' ++ .done) := by
        intro line' loops' p' h'
        rw [Program.append_done]
        exact .outermost h'
      simpa using meets_of_at h hlater .finish
  | within hloop h hnext =>
      refine meets_of_at h (fun line' loops' p' h' => ?_) fun h' => ?_
      · exact .within hloop h' hnext
      · exact .back h' hloop hnext

/-- Behind the test of a loop, its whole body is placed. -/
theorem Placed.entered {o : Options} {code : List Line}
    {top number : Nat} {inner next : Program}
    (hloop : At code top (loopCode o number inner))
    (hnext : Placed o code (top + (loopCode o number inner).length) next) :
    Placed o code (top + 4) (inner ++ .loop inner next) :=
  .within hloop (at_loopRest hloop) hnext

end TapeAsm.Asm
