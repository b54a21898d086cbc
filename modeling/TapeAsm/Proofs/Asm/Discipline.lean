/-
What a compiled program does with the stack. Between the prologue and
the epilogue the stack is as the prologue left it, except inside of the
group that a run of writes is: there the argument of the calls is on top
of it, and nothing else. So the epilogue finds what the prologue saved,
and the program returns to its caller as the C convention asks for it
(`Disciplined`, `Listing.disciplined_add`).

The states of a run are visited stretch by stretch: the prologue, the
code of a run, the test of a loop with its jump, the epilogue. Every
instruction but those of a group leaves the stack alone (`Neutral`), and
every jump leads from one place where a part of the program begins to
another (`Placed`), where the stack is level. Nothing is asked of the
counts of the runs, nor of the place of the head.
-/
import TapeAsm.Proofs.Asm.Frame
import TapeAsm.Proofs.Asm.Placement

namespace TapeAsm.Asm

open StateTransition Relation

-- =============================================== neutral instructions

/-- The second state has the stack of the first. -/
structure Core.SameStack (c c' : Core) : Prop where
  stack : c'.stack = c.stack
  pointer : c'.registers .sp = c.registers .sp

/-- The instruction can be executed in every state, and the stack is the
same behind it. -/
def Neutral (i : Instruction) : Prop :=
  ∀ c : Core, ∃ c', c.effect i = some c' ∧ c.SameStack c'

namespace Core

theorem SameStack.trans {c₁ c₂ c₃ : Core} (h : c₁.SameStack c₂)
    (h' : c₂.SameStack c₃) : c₁.SameStack c₃ :=
  ⟨h'.stack.trans h.stack, h'.pointer.trans h.pointer⟩

/-- What keeps the stack and its pointer leaves the stack the same. -/
theorem Keeps.sameStack {c c' : Core} (h : c.Keeps c') : c.SameStack c' :=
  ⟨h.stack, h.registers _ (by decide)⟩

theorem sameStack_set {r : Register} (hr : r ≠ .sp) (c : Core) (x : Word) :
    c.SameStack (c.set r x) :=
  ⟨rfl, registers_set_of_ne (Ne.symm hr) c x⟩

/-- Neutral instructions can all be executed, one after the other. -/
theorem effects_of_neutral {is : List Instruction}
    (h : ∀ i ∈ is, Neutral i) (c : Core) :
    ∃ c', c.effects is = some c' ∧ c.SameStack c' := by
  induction is generalizing c with
  | nil => exact ⟨c, rfl, rfl, rfl⟩
  | cons i is ih =>
      obtain ⟨c₁, heffect, hsame⟩ := h i (List.mem_cons_self ..) c
      obtain ⟨c', heffects, hsame'⟩ :=
        ih (fun j hj => h j (List.mem_cons_of_mem i hj)) c₁
      exact ⟨c', (effects_cons heffect is).trans heffects,
        hsame.trans hsame'⟩

end Core

namespace Neutral

variable {i : Instruction}

theorem of_combine_head {f : ∀ {n}, BitVec n → BitVec n → BitVec n}
    {n : Nat} (h : ∀ c : Core, c.effect i
      = c.combine f head (.immediate n)) : Neutral i := by
  intro c
  obtain ⟨equal, heffect⟩ := c.combine_head f n
  have hne : Register.b ≠ .sp := by decide
  have hsame := c.sameStack_set hne
    (f (c.registers .b) (BitVec.ofNat 32 n))
  exact ⟨_, (h c).trans heffect, hsame.stack, hsame.pointer⟩

theorem of_combine_cell {f : ∀ {n}, BitVec n → BitVec n → BitVec n}
    {n : Nat} (h : ∀ c : Core, c.effect i
      = c.combine f (cell (some .byte)) (.immediate n)) : Neutral i := by
  intro c
  obtain ⟨equal, heffect⟩ := c.combine_cell f n
  exact ⟨_, (h c).trans heffect, rfl, rfl⟩

theorem read : Neutral (Build.call readRoutine) := by
  intro c
  exact ⟨c.read, rfl, c.keeps_read.sameStack⟩

theorem store :
    Neutral { mnemonic := "mov", operands := [cell none, scratch] } := by
  intro c
  exact ⟨_, Core.copy_eq rfl c.value_scratch (c.assign_cell (.inl rfl) _),
    rfl, rfl⟩

theorem load :
    Neutral { mnemonic := "mov", operands := [scratch, cell none] } := by
  intro c
  have hne : Register.a ≠ .sp := by decide
  exact ⟨_, Core.copy_eq rfl (c.value_cell (.inl rfl))
    (c.assign_scratch _), c.sameStack_set hne _⟩

theorem test :
    Neutral { mnemonic := "cmp", operands := [scratch, .immediate 0] } := by
  intro c
  exact ⟨_, Core.compare_immediate 0 rfl c.value_scratch, rfl, rfl⟩

/-- The code of every run but one of writes is neutral. -/
theorem of_ofRun {op : Op} (hop : op ≠ .write) {count : Nat}
    (h : OfRun op count i) : Neutral i := by
  cases h with
  | moveRight => exact .of_combine_head fun c => c.effect_addNumber head count
  | moveLeft => exact .of_combine_head fun c => c.effect_subNumber head count
  | increment =>
      exact .of_combine_cell fun c => c.effect_addNumber _ (count % 256)
  | decrement =>
      exact .of_combine_cell fun c => c.effect_subNumber _ (count % 256)
  | push => exact absurd rfl hop
  | write => exact absurd rfl hop
  | pop => exact absurd rfl hop
  | read => exact .read
  | store => exact .store

theorem of_mem_runLines {o : Options} {op : Op} (hop : op ≠ .write)
    {count : Nat} (h : i ∈ runLines o op count) : Neutral i := by
  obtain ⟨j, hj, hmnemonic, hoperands⟩ := ofRun_of_mem_runLines h
  intro c
  rw [c.effect_congr hmnemonic hoperands]
  exact of_ofRun hop hj c

/-- The test of a loop leaves the stack alone. -/
theorem of_mem_loopTest (hi : i ∈ loopTest) : Neutral i := by
  rw [loopTest_eq, List.mem_pair] at hi
  rcases hi with rfl | rfl
  · exact .load
  · exact .test

end Neutral

-- ========================================================= discipline

/-- The next instruction is a call of a routine. -/
def Machine.Calls (code : List Line) (m : Machine) (routine : String) :
    Prop :=
  ∃ i, code[m.line]? = some (.instruction i) ∧ i.mnemonic = "call"
    ∧ i.operands = [.label routine]

/-- The line is inside of the group of a run of writes: behind its push,
at one of the calls or at the pop. -/
def InGroup (o : Options) (code : List Line) (line : Nat) : Prop :=
  ∃ first count, At code first ((runLines o .write count).map .instruction)
    ∧ first < line ∧ line ≤ first + count + 1

/-- There is one thing more on the stack: the argument of a write, with
the cell under the head in its low byte. -/
def Core.Loaded (ready c : Core) : Prop :=
  ∃ x, c.stack = x :: ready.stack
    ∧ c.registers .sp = ready.registers .sp - 4
    ∧ x.setWidth 8 = c.memory tapeLabel (c.registers .b)

/-- How a run of a text handles the stack, given its states at entry and
behind the prologue (`ready`), and the lines where the prologue has ended
and where the epilogue begins. -/
structure Disciplined (o : Options) (code : List Line) (first last : Nat)
    (entry ready : Core) (m : Machine) : Prop where
  /-- Outside of groups, the stack is as the prologue left it. -/
  level : first ≤ m.line → m.line ≤ last → ¬ InGroup o code m.line →
    ready.SameStack m.core
  /-- The writing routine finds its argument on top of that, and nothing
  else. -/
  argument : m.Calls code writeRoutine → ready.Loaded m.core
  /-- The caller gets the answer zero, and its stack and its registers
  back. -/
  result : m.Returns code → m.core.registers .a = 0
    ∧ m.core.stack = entry.stack
    ∧ ∀ r ∈ [Register.b, .sp, .bp, .si, .di],
      m.core.registers r = entry.registers r

/-- A line that neither returns nor calls the writing routine. -/
def Line.Quiet : Line → Prop
  | instruction i => i ≠ Build.ret
    ∧ ¬ (i.mnemonic = "call" ∧ i.operands = [.label writeRoutine])
  | label _ => True
  | directive _ => True

theorem Line.quiet_of_mnemonic {i : Instruction} (hret : i.mnemonic ≠ "ret")
    (hcall : i.mnemonic ≠ "call") : (Line.instruction i).Quiet :=
  ⟨fun heq => hret (by rw [heq]; rfl), fun h => hcall h.1⟩

/-- A neutral instruction can be executed on an empty stack, which a call
of the writing routine cannot. -/
theorem Neutral.quiet {i : Instruction} (h : Neutral i) (c : Core) :
    (Line.instruction i).Quiet := by
  refine ⟨?_, ?_⟩
  · rintro rfl
    obtain ⟨c', heffect, -⟩ := h c
    cases heffect
  · rintro ⟨hmnemonic, hoperands⟩
    obtain ⟨c', heffect, -⟩ := h { c with stack := [] }
    rw [Core.effect, hmnemonic, hoperands] at heffect
    cases heffect

section Discipline

variable {o : Options} {code : List Line} {first last : Nat}
  {entry ready : Core}

/-- At a quiet line only the level of the stack is in question. -/
theorem Disciplined.of_quiet {m : Machine} {l : Line}
    (hl : code[m.line]? = some l) (hquiet : l.Quiet)
    (h : first ≤ m.line → m.line ≤ last → ready.SameStack m.core) :
    Disciplined o code first last entry ready m where
  level hfirst hlast _ := h hfirst hlast
  argument := by
    rintro ⟨i, hi, hcall⟩
    cases hl.symm.trans hi
    exact absurd hcall hquiet.2
  result := by
    intro hreturns
    cases hl.symm.trans hreturns
    exact absurd rfl hquiet.1

/-- Along quiet code only the level of the stack is in question, before
each of the instructions. -/
theorem along_quiet {line : Nat} {is : List Instruction} {c c' : Core}
    (h : At code line (is.map .instruction))
    (heffects : c.effects is = some c')
    (his : ∀ i ∈ is, (Line.instruction i).Quiet)
    (hlevel : ∀ done i todo c₁, is = done ++ i :: todo →
      c.effects done = some c₁ → first ≤ line + done.length →
      line + done.length ≤ last → ready.SameStack c₁) :
    Along (Machine.step code)
      (Disciplined o code first last entry ready) ⟨line, c⟩
      ⟨line + is.length, c'⟩ := by
  refine along_effects h heffects fun done i todo c₁ hsplit hi hc₁ => ?_
  have hmem : i ∈ is := by
    rw [hsplit]
    exact List.mem_append_right _ (List.mem_cons_self ..)
  exact .of_quiet hi (his i hmem) (hlevel done i todo c₁ hsplit hc₁)

-- =============================================================== runs

/-- Neutral code is run over with the stack level all the way. -/
theorem along_neutral {line : Nat} {is : List Instruction} {c : Core}
    (h : At code line (is.map .instruction)) (his : ∀ i ∈ is, Neutral i)
    (hc : ready.SameStack c) :
    ∃ c', ready.SameStack c'
      ∧ Along (Machine.step code)
        (Disciplined o code first last entry ready) ⟨line, c⟩
        ⟨line + is.length, c'⟩ := by
  obtain ⟨c', heffects, hsame⟩ := Core.effects_of_neutral his c
  refine ⟨c', hc.trans hsame, along_quiet h heffects
    (fun i hi => (his i hi).quiet c) ?_⟩
  intro done i todo c₁ hsplit hc₁ _ _
  have hdone : ∀ j ∈ done, Neutral j := by
    intro j hj
    exact his j (hsplit ▸ List.mem_append_left _ hj)
  obtain ⟨c₂, hc₂, hsame'⟩ := Core.effects_of_neutral hdone c
  cases hc₁.symm.trans hc₂
  exact hc.trans hsame'

/-- Of a group, what is done after its push is some of the calls. -/
private theorem eq_replicate_of_group {count : Nat}
    {done todo : List Instruction} {i w q : Instruction}
    (h : done ++ i :: todo = List.replicate count w ++ [q]) :
    done = List.replicate done.length w ∧ done.length ≤ count
      ∧ (i = w ∨ i = q) := by
  have hi : i ∈ List.replicate count w ++ [q] := by
    rw [← h]
    exact List.mem_append_right _ (List.mem_cons_self ..)
  have hmem : i = w ∨ i = q := by
    rw [List.mem_append, List.mem_singleton] at hi
    exact hi.imp_left List.eq_of_mem_replicate
  rcases List.append_eq_append_iff.mp h with ⟨rest, hrest, -⟩ |
    ⟨rest, rfl, hrest⟩
  · obtain ⟨hlength, hdone, -⟩ := List.append_eq_replicate_iff.mp hrest.symm
    exact ⟨hdone, by omega, hmem⟩
  · have hnil : rest = [] := by
      have hlength := congrArg List.length hrest
      rw [List.length_singleton, List.length_append, List.length_cons]
        at hlength
      exact List.eq_nil_of_length_eq_zero (by omega)
    subst hnil
    simp [hmem]

/-- A push of the cell under the head makes an argument, which the calls
keep. -/
theorem Core.Loaded.of_push {c c' : Core} {x : Word}
    (hc : ready.SameStack c)
    (hx : x.setWidth 8 = c.memory tapeLabel (c.registers .b))
    (h : (c.push x).Keeps c') : ready.Loaded c' := by
  refine ⟨x, h.stack.trans (congrArg (x :: ·) hc.stack), ?_, ?_⟩
  · rw [h.registers _ (by decide), pointer_push, hc.pointer]
  · rw [hx, h.memory, h.registers _ (by decide),
      registers_push_of_ne (by decide)]
    rfl

/-- A group is run over with its argument on top of the stack. -/
theorem along_group {top count : Nat} {c : Core}
    (h : At code top ((runLines o .write count).map .instruction))
    (hc : ready.SameStack c) :
    ∃ c', ready.SameStack c'
      ∧ Along (Machine.step code)
        (Disciplined o code first last entry ready) ⟨top, c⟩
        ⟨top + (runLines o .write count).length, c'⟩ := by
  obtain ⟨c', heffects, hkeeps, -⟩ := c.effects_runCode_write count
  rw [← c.effects_commentFirst o (runText .write count)] at heffects
  refine ⟨c', hc.trans hkeeps.sameStack, along_effects h heffects ?_⟩
  intro done i todo c₁ hsplit hi hc₁
  cases done with
  | nil =>
      cases hc₁
      have hpush : i = o.comment (runText .write count)
          (Build.push (cell (some .dword))) :=
        (List.cons.inj hsplit).1.symm
      refine .of_quiet hi (Line.quiet_of_mnemonic ?_ ?_) fun _ _ => hc
      · rw [hpush, comment_mnemonic]
        decide
      · rw [hpush, comment_mnemonic]
        decide
  | cons j done =>
      obtain ⟨hj, hrest⟩ := List.cons.inj hsplit
      obtain ⟨hdone, hcount, hi'⟩ := eq_replicate_of_group hrest.symm
      let x : Word := c.memory.load tapeLabel (c.registers .b) .dword
      have hx : x.setWidth 8 = c.memory tapeLabel (c.registers .b) :=
        Memory.setWidth_load_dword ..
      have hpush : c.effect j = some (c.push x) := by
        rw [← hj, Core.effect_comment]
        exact congrArg (Option.map c.push) c.value_cell_dword
      obtain ⟨c₂, hwrites, hpushed, -⟩ := Core.effects_writes done.length
        (show (c.push x).stack = x :: c.stack from rfl)
      rw [Core.effects_cons hpush, hdone] at hc₁
      cases hc₁.symm.trans hwrites
      refine ⟨fun _ _ hout => ?_, fun _ => .of_push hc hx hpushed, ?_⟩
      · refine absurd ⟨top, count, h, ?_, ?_⟩ hout
        · exact Nat.lt_add_of_pos_right (Nat.succ_pos _)
        · show top + (done.length + 1) ≤ top + count + 1
          omega
      · intro hreturns
        have hret : i = Build.ret :=
          Line.instruction.inj (Option.some.inj (hi.symm.trans hreturns))
        rcases hi' with rfl | rfl
        · exact absurd hret (by decide)
        · exact absurd hret (by decide)

/-- The code of a run is run over, whatever the run. -/
theorem along_runLines {line : Nat} (op : Op) {count : Nat} {c : Core}
    (h : At code line ((runLines o op count).map .instruction))
    (hc : ready.SameStack c) :
    ∃ c', ready.SameStack c'
      ∧ Along₁ (Machine.step code)
        (Disciplined o code first last entry ready) ⟨line, c⟩
        ⟨line + (runLines o op count).length, c'⟩ := by
  have hrun : ∃ c', ready.SameStack c'
      ∧ Along (Machine.step code)
        (Disciplined o code first last entry ready) ⟨line, c⟩
        ⟨line + (runLines o op count).length, c'⟩ := by
    by_cases hop : op = .write
    · subst hop
      exact along_group h hc
    · exact along_neutral h (fun i hi => .of_mem_runLines hop hi) hc
  obtain ⟨c', hc', hrun⟩ := hrun
  refine ⟨c', hc', hrun.along₁ fun heq => ?_⟩
  injection heq with hline
  have hpos := List.length_pos_iff.mpr (runLines_ne_nil o op count)
  omega

-- ============================================================== loops

/-- From the top of a loop the run gets into its body or behind its
end. -/
theorem along_loop (hlabels : (labels code).Nodup) {top number : Nat}
    {inner next : Program} {c : Core}
    (hloop : At code top (loopCode o number inner))
    (hnext : Placed o code (top + (loopCode o number inner).length) next)
    (hc : ready.SameStack c) :
    ∃ line p c', Placed o code line p ∧ ready.SameStack c'
      ∧ Along₁ (Machine.step code)
        (Disciplined o code first last entry ready) ⟨top, c⟩ ⟨line, c'⟩ := by
  have hlabel := hloop.left.left.getElem?
  have htop : Disciplined o code first last entry ready ⟨top, c⟩ :=
    .of_quiet hlabel trivial fun _ _ => hc
  have htest : ∃ c', ready.SameStack c'
      ∧ Along (Machine.step code)
        (Disciplined o code first last entry ready) ⟨top + 1, c⟩
        ⟨top + 3, c'⟩ :=
    along_neutral hloop.left.left.tail.left
      (fun i hi => .of_mem_loopTest hi) hc
  obtain ⟨c', hc', htest⟩ := htest
  have hjump := getElem?_loopTop hloop.left.left
  have hbefore : Disciplined o code first last entry ready ⟨top + 3, c'⟩ :=
    .of_quiet hjump (Line.quiet_of_mnemonic (by simp [Build.je])
      (by simp [Build.je])) fun _ _ => hc'
  have hreach : Along₁ (Machine.step code)
      (Disciplined o code first last entry ready) ⟨top, c⟩ ⟨top + 3, c'⟩ :=
    .head' ⟨htop, step_label hlabel c⟩ htest
  by_cases hequal : c'.equal = true
  · have hend := hloop.right.getElem?
    have hskip := step_je_equal hjump (target_eq_some hlabels hend) hequal
    rw [length_loopCode, ← Nat.add_assoc] at hnext
    exact ⟨_, _, _, hnext, hc', .tail (hreach.tail ⟨hbefore, hskip⟩)
      ⟨.of_quiet hend trivial fun _ _ => hc', step_label hend c'⟩⟩
  · exact ⟨_, _, _, .entered hloop hnext, hc',
      hreach.tail ⟨hbefore, step_je_unequal hjump hequal⟩⟩

-- ======================================================== both ends

/-- The prologue is run over without a call. -/
theorem along_prologue {start : Nat}
    (h : At code start
      (.label entryLabel :: prologue.map Line.instruction))
    (hfirst : start + 1 + prologue.length = first)
    (hready : entry.effects prologue = some ready) :
    Along₁ (Machine.step code)
      (Disciplined o code first last entry ready) ⟨start, entry⟩
      ⟨first, ready⟩ := by
  have hlabel := h.getElem?
  rw [← hfirst]
  refine .head' ⟨.of_quiet hlabel trivial fun hlow _ => ?_,
    step_label hlabel entry⟩ (along_quiet h.tail hready ?_ ?_)
  · replace hlow : start + 1 + prologue.length ≤ start := hlow
    omega
  · have hquiet : ∀ i ∈ prologue,
        i.mnemonic ≠ "ret" ∧ i.mnemonic ≠ "call" := by decide
    exact fun i hi => Line.quiet_of_mnemonic (hquiet i hi).1 (hquiet i hi).2
  · intro done i todo c₁ hsplit _ hlow _
    have hlength := congrArg List.length hsplit
    rw [List.length_append, List.length_cons] at hlength
    omega

/-- The epilogue is run over without a call, and gives the caller its
due. -/
theorem along_epilogue {c : Core}
    (h : At code last (epilogue.map Line.instruction))
    (hready : entry.framed.SameStack ready) (hc : ready.SameStack c) :
    ∃ m, Along₁ (Machine.step code)
        (Disciplined o code first last entry ready) ⟨last, c⟩ m
      ∧ Disciplined o code first last entry ready m ∧ m.Returns code := by
  rw [epilogue_eq_restoring, List.map_append] at h
  have hret := h.right.getElem?
  rw [List.length_map] at hret
  have hframed := hready.trans hc
  obtain ⟨c', heffects, hstack, hzero, hregisters, -⟩ :=
    Core.effects_restoring hframed.stack hframed.pointer
  have hquiet : ∀ i ∈ restoring,
      i.mnemonic ≠ "ret" ∧ i.mnemonic ≠ "call" := by decide
  have hrun : Along (Machine.step code)
      (Disciplined o code first last entry ready) ⟨last, c⟩
      ⟨last + restoring.length, c'⟩ := by
    refine along_quiet h.left heffects (fun i hi =>
      Line.quiet_of_mnemonic (hquiet i hi).1 (hquiet i hi).2) ?_
    -- only the first of the instructions is not behind the last line
    intro done i todo c₁ hsplit hc₁ _ hhigh
    obtain rfl : done = [] :=
      List.eq_nil_of_length_eq_zero (by omega)
    cases hc₁
    exact hc
  have hbehind : last < last + restoring.length :=
    Nat.lt_add_of_pos_right (by decide)
  refine ⟨_, hrun.along₁ fun heq => ?_, ⟨fun _ hhigh => ?_, ?_, fun _ => ?_⟩,
    hret⟩
  · injection heq with hline
    omega
  · exact absurd hhigh (Nat.not_le_of_lt hbehind)
  · rintro ⟨i, hi, hcall, -⟩
    cases hret.symm.trans hi
    exact absurd hcall (by decide)
  · exact ⟨hzero, hstack, hregisters⟩

-- ============================================================ joints

/-- The places of a run where one stretch ends and the next begins. -/
inductive Joint (o : Options) (code : List Line) (start first last : Nat)
    (entry ready : Core) : Machine → Prop where
  | entered : Joint o code start first last entry ready ⟨start, entry⟩
  | placed {line : Nat} {p : Program} {c : Core}
    (hplaced : Placed o code line p) (hc : ready.SameStack c) :
    Joint o code start first last entry ready ⟨line, c⟩
  | returned {m : Machine}
    (h : Disciplined o code first last entry ready m)
    (hreturns : m.Returns code) :
    Joint o code start first last entry ready m

/-- From each joint a stretch leads to the next. -/
private theorem next_joint {start : Nat} {p : Program}
    (hlabels : (labels code).Nodup)
    (hstart : At code start
      (.label entryLabel :: prologue.map Line.instruction))
    (hfirst : start + 1 + prologue.length = first)
    (hplaced : Placed o code first p)
    (hlast : ∀ line, At code line (epilogue.map .instruction) →
      line = last)
    (hready : entry.effects prologue = some ready)
    (hsame : entry.framed.SameStack ready) {m : Machine}
    (h : Joint o code start first last entry ready m) :
    (Disciplined o code first last entry ready m ∧ m.Returns code)
      ∨ ∃ m', Along₁ (Machine.step code)
          (Disciplined o code first last entry ready) m m'
        ∧ Joint o code start first last entry ready m' := by
  cases h with
  | entered =>
      exact .inr ⟨_, along_prologue hstart hfirst hready,
        .placed hplaced ⟨rfl, rfl⟩⟩
  | placed hplaced hc =>
      cases hplaced.meets with
      | finish hline =>
          obtain rfl := hlast _ hline
          obtain ⟨m', hrun, hgood, hreturns⟩ :=
            along_epilogue hline hsame hc
          exact .inr ⟨m', hrun, .returned hgood hreturns⟩
      | run op count hline hnext =>
          obtain ⟨c', hc', hrun⟩ := along_runLines op hline hc
          exact .inr ⟨_, hrun, .placed hnext hc'⟩
      | enter hloop hnext =>
          obtain ⟨line, p, c', hnext', hc', hrun⟩ :=
            along_loop hlabels hloop hnext hc
          exact .inr ⟨_, hrun, .placed hnext' hc'⟩
      | back hline hloop hnext =>
          obtain ⟨line', p, c', hnext', hc', hrun⟩ :=
            along_loop hlabels hloop hnext hc
          refine .inr ⟨_, .head ⟨?_, step_back hlabels hloop hline _⟩ hrun,
            .placed hnext' hc'⟩
          exact .of_quiet hline.getElem?
            (Line.quiet_of_mnemonic (by simp [jumpBack, Build.jmp])
              (by simp [jumpBack, Build.jmp])) fun _ _ => hc
  | returned hgood hreturns => exact .inl ⟨hgood, hreturns⟩

end Discipline

-- ========================================================== the text

section Text

variable (o : Options) (loops : Nat) (p : Program)

/-- A program does not return on its way. -/
theorem ret_not_mem_body :
    Line.instruction Build.ret ∉ body o loops p := by
  have hmnemonic : ∀ i : Instruction, i.mnemonic ≠ "ret" →
      Line.instruction i ≠ .instruction Build.ret := by
    intro i hi heq
    rw [Line.instruction.inj heq] at hi
    exact hi rfl
  have hrun : ∀ op count, ∀ i ∈ runLines o op count,
      i.mnemonic ≠ "ret" := by
    intro op count i hi heq
    obtain ⟨j, hj, hsame, -⟩ := ofRun_of_mem_runLines hi
    have hmem := hj.mnemonic_mem
    rw [← hsame, heq] at hmem
    exact absurd hmem (by decide)
  have hlines : ∀ l ∈ body o loops p, l ≠ .instruction Build.ret :=
    forall_mem_body (fun op count i hi => hmnemonic i (hrun op count i hi))
      (fun _ => nofun) (by decide)
      (fun number => hmnemonic _ (by simp [Build.je]))
      (fun number => hmnemonic _ (by simp [jumpBack, Build.jmp]))
      (fun _ => nofun) loops p
  exact fun hmem => hlines _ hmem rfl

/-- The lines of a text before its return. -/
def beforeReturn : List Line :=
  header o ++ prologue.map .instruction ++ body o loops p
    ++ restoring.map .instruction

theorem unit_eq_beforeReturn :
    unit o loops p = beforeReturn o loops p ++ [.instruction Build.ret] := by
  rw [unit_eq, beforeReturn, epilogue_eq_restoring, List.map_append,
    ← List.append_assoc]
  rfl

theorem ret_not_mem_beforeReturn :
    Line.instruction Build.ret ∉ beforeReturn o loops p := by
  have hheader : Line.instruction Build.ret ∉ header o := by simp [header]
  have hprologue : Line.instruction Build.ret
      ∉ prologue.map Line.instruction := by decide
  have hrestoring : Line.instruction Build.ret
      ∉ restoring.map Line.instruction := by decide
  simp only [beforeReturn, List.mem_append, not_or]
  exact ⟨⟨⟨hheader, hprologue⟩, ret_not_mem_body o loops p⟩, hrestoring⟩

/-- A text returns only from its last line. -/
theorem line_of_returns {line : Nat}
    (h : (unit o loops p)[line]? = some (.instruction Build.ret)) :
    line = (beforeReturn o loops p).length := by
  rw [unit_eq_beforeReturn] at h
  rcases Nat.lt_trichotomy line (beforeReturn o loops p).length
    with hlt | heq | hgt
  · rw [List.getElem?_append_left hlt] at h
    have hmem := List.mem_of_getElem? h
    exact absurd hmem (ret_not_mem_beforeReturn o loops p)
  · exact heq
  · rw [List.getElem?_eq_none (by simp; omega)] at h
    cases h

/-- The epilogue stands at the end of a text, and nowhere else. -/
theorem line_of_at_epilogue {line : Nat}
    (h : At (unit o loops p) line (epilogue.map .instruction)) :
    line = (header o).length + prologue.length
      + (body o loops p).length := by
  rw [epilogue_eq_restoring, List.map_append] at h
  have hlast := line_of_returns o loops p h.right.getElem?
  simp only [beforeReturn, List.length_append, List.length_map] at hlast
  omega

end Text

/-- The lines that a listing gets for a program keep to the discipline.
A run of them from the entry label, in any state of the machine, gets
behind the prologue first; with `ready` for its state there, every state
that it gets to is in order, and it stops nowhere but at its return. -/
theorem Listing.disciplined_add (l : Listing) (p : Program) (c : Core) :
    let code := (l.add p).lines.drop l.lines.length
    let first := (header l.options).length + prologue.length
    let last := first + (body l.options l.loops p).length
    code[last]? = some (.instruction Build.popa)
      ∧ ∃ start ready, Machine.target code entryLabel = some start
        ∧ Reaches (Machine.step code) ⟨start, c⟩ ⟨first, ready⟩
        ∧ ∀ m, Reaches (Machine.step code) ⟨start, c⟩ m →
          Disciplined l.options code first last c ready m
            ∧ (m.step code = none → m.Returns code) := by
  intro code first last
  have hcode : code = unit l.options l.loops p := l.drop_add p
  have hlabels : (labels code).Nodup := by
    rw [hcode]
    exact nodup_labels_unit l.options l.loops p
  have hunit : At code 5 (.label entryLabel :: (prologue.map .instruction
      ++ (body l.options l.loops p ++ epilogue.map .instruction))) := by
    rw [hcode]
    exact at_entry l.options l.loops p
  have hstart : At code 5
      (.label entryLabel :: prologue.map Line.instruction) := hunit.left
  have hbody : At code first
      (body l.options l.loops p ++ epilogue.map .instruction) :=
    hunit.tail.right
  have hlast : ∀ line, At code line (epilogue.map .instruction) →
      line = last := by
    intro line hline
    rw [hcode] at hline
    exact line_of_at_epilogue l.options l.loops p hline
  let ready : Core := { c.framed.set .b 0 with equal := true }
  have hne : Register.b ≠ .sp := by decide
  have hsame : c.framed.SameStack ready :=
    ⟨rfl, (Core.sameStack_set hne c.framed 0).pointer⟩
  have hentry : Along₁ (Machine.step code)
      (Disciplined l.options code first last c ready) ⟨5, c⟩
      ⟨first, ready⟩ :=
    along_prologue hstart rfl c.effects_prologue
  refine ⟨hbody.right.getElem?, 5, ready,
    target_eq_some hlabels hunit.getElem?, hentry.along.reaches, ?_⟩
  intro m hm
  exact holds_of_stretches Machine.Returns.step_eq_none
    (next_joint hlabels hstart rfl (.outermost hbody) hlast
      c.effects_prologue hsame) .entered hm

end TapeAsm.Asm
