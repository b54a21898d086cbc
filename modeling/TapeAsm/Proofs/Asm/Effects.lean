/-
What the code of a program does to the state of the machine, stretch by
stretch and jumps apart (`Core.effects`). First the operands that occur,
then the instructions, and then the stretches: the code of a run of
writes or of reads (`Core.effects_runCode_write`,
`Core.effects_runCode_read`) and the test of a loop
(`Core.effects_loopTest`).

A routine leaves three registers and the flag in any state; everything
else is kept (`Core.Keeps`), and so it is by the stretches around the
calls, which clean up the stack behind them.
-/
import TapeAsm.Proofs.Run.Machine

namespace TapeAsm.Asm

-- ========================================================== stretches

@[simp] theorem comment_mnemonic (o : Options) (text : String)
    (i : Instruction) : (o.comment text i).mnemonic = i.mnemonic := by
  unfold Options.comment
  split
  · rfl
  · rfl

@[simp] theorem comment_operands (o : Options) (text : String)
    (i : Instruction) : (o.comment text i).operands = i.operands := by
  unfold Options.comment
  split
  · rfl
  · rfl

/-- A comment is all that `commentFirst` changes. -/
theorem mem_commentFirst {o : Options} {text : String}
    {is : List Instruction} {i : Instruction}
    (h : i ∈ o.commentFirst text is) :
    ∃ j ∈ is, i.mnemonic = j.mnemonic ∧ i.operands = j.operands := by
  cases is with
  | nil => cases h
  | cons j is =>
      rcases List.mem_cons.mp h with rfl | h
      · exact ⟨j, List.mem_cons_self .., comment_mnemonic ..,
          comment_operands ..⟩
      · exact ⟨i, List.mem_cons_of_mem j h, rfl, rfl⟩

namespace Core

/-- What several instructions do, one after the other. -/
def effects (c : Core) (is : List Instruction) : Option Core :=
  is.foldlM effect c

theorem effects_cons {c c' : Core} {i : Instruction}
    (h : c.effect i = some c') (is : List Instruction) :
    c.effects (i :: is) = c'.effects is := by
  rw [effects, List.foldlM_cons, h]
  rfl

/-- The effect of code is that of its first part and then that of its
second. -/
theorem effects_append {c c' : Core} {is : List Instruction}
    (h : c.effects is = some c') (js : List Instruction) :
    c.effects (is ++ js) = c'.effects js := by
  rw [effects] at h
  rw [effects, List.foldlM_append, h]
  rfl

/-- What an instruction does is in its mnemonic and its operands. -/
theorem effect_congr {i j : Instruction} (hmnemonic : i.mnemonic = j.mnemonic)
    (hoperands : i.operands = j.operands) (c : Core) :
    c.effect i = c.effect j := by
  rw [effect, effect, hmnemonic, hoperands]

/-- A comment does nothing. -/
theorem effect_comment (c : Core) (o : Options) (text : String)
    (i : Instruction) : c.effect (o.comment text i) = c.effect i :=
  effect_congr (comment_mnemonic ..) (comment_operands ..) c

/-- A comment has no effect. -/
theorem effects_commentFirst (c : Core) (o : Options) (text : String)
    (is : List Instruction) :
    c.effects (o.commentFirst text is) = c.effects is := by
  cases is with
  | nil => rfl
  | cons i is =>
      simp only [Options.commentFirst, effects, List.foldlM_cons,
        effect_comment]

/-- Adding one is adding a number. -/
theorem effect_addNumber (c : Core) (dst : Operand) (n : Nat) :
    c.effect (addNumber dst n) = c.combine (· + ·) dst (.immediate n) := by
  unfold addNumber
  split
  · next hone =>
    rw [hone]
    rfl
  · rfl

/-- Subtracting one is subtracting a number. -/
theorem effect_subNumber (c : Core) (dst : Operand) (n : Nat) :
    c.effect (subNumber dst n) = c.combine (· - ·) dst (.immediate n) := by
  unfold subNumber
  split
  · next hone =>
    rw [hone]
    rfl
  · rfl

-- =========================================================== operands

@[simp] theorem registers_set_same (c : Core) (r : Register) (x : Word) :
    (c.set r x).registers r = x := by
  simp [set]

theorem registers_set_of_ne {r r' : Register} (h : r' ≠ r) (c : Core)
    (x : Word) : (c.set r x).registers r' = c.registers r' := by
  simp [set, h]

theorem value_immediate (c : Core) (w : Width) (n : Nat) :
    c.value w (.immediate n) = some (BitVec.ofNat w.bits n) := rfl

/-- A whole register is used as it is. -/
theorem value_dword (c : Core) (r : Register) :
    c.value .dword (.register ⟨r, .dword⟩) = some (c.registers r) :=
  congrArg some (BitVec.setWidth_eq (c.registers r))

theorem assign_dword (c : Core) (r : Register) (x : Word) :
    c.assign .dword (.register ⟨r, .dword⟩) x = some (c.set r x) :=
  congrArg (fun y => some (c.set r y)) (BitVec.setWidth_eq x)

theorem value_scratch (c : Core) :
    c.value .byte scratch = some ((c.registers .a).extractLsb' 0 8) :=
  congrArg some (BitVec.setWidth_eq ((c.registers .a).extractLsb' 0 8))

theorem assign_scratch (c : Core) (x : Byte) :
    c.assign .byte scratch x
      = some (c.set .a (Access.set .lowByte (c.registers .a) x)) :=
  congrArg (fun y => some (c.set .a (Access.set .lowByte _ y)))
    (BitVec.setWidth_eq x)

/-- The place of a cell is what `ebx` holds. -/
theorem offset_b (c : Core) : c.offset ⟨.b, .dword⟩ = c.registers .b :=
  BitVec.setWidth_eq (c.registers .b)

/-- A cell is used as a byte if its width is left open, too. -/
theorem value_cell (c : Core) {size : Option OperandSize}
    (h : size = none ∨ size = some .byte) :
    c.value .byte (cell size)
      = some (c.memory tapeLabel (c.registers .b)) := by
  have hbyte : c.value .byte (cell size)
      = some (c.memory tapeLabel (c.offset ⟨.b, .dword⟩)) := by
    rcases h with rfl | rfl
    · rfl
    · rfl
  rw [hbyte, offset_b]

theorem assign_cell (c : Core) {size : Option OperandSize}
    (h : size = none ∨ size = some .byte) (x : Byte) :
    c.assign .byte (cell size) x
      = some { c with
          memory := c.memory.put tapeLabel (c.registers .b) x } := by
  have hbyte : c.assign .byte (cell size) x
      = some { c with
          memory := c.memory.put tapeLabel (c.offset ⟨.b, .dword⟩) x } := by
    rcases h with rfl | rfl
    · rfl
    · rfl
  rw [hbyte, offset_b]

/-- A push of a cell takes three more bytes along. -/
theorem value_cell_dword (c : Core) :
    c.value .dword (cell (some .dword))
      = some (c.memory.load tapeLabel (c.registers .b) .dword) := by
  have hdword : c.value .dword (cell (some .dword))
      = some (c.memory.load tapeLabel (c.offset ⟨.b, .dword⟩) .dword) := rfl
  rw [hdword, offset_b]

-- ======================================================= instructions

/-- A computation, in the width that one of the operands states. -/
theorem combine_eq {c c' : Core} {w : Width} {dst src : Operand}
    (f : ∀ {n}, BitVec n → BitVec n → BitVec n) {x y : BitVec w.bits}
    (hwidth : (dst.width? <|> src.width?) = some w)
    (hdst : c.value w dst = some x) (hsrc : c.value w src = some y)
    (hassign : c.assign w dst (f x y) = some c') :
    c.combine f dst src = some { c' with equal := f x y == 0 } := by
  simp [combine, hwidth, hdst, hsrc, hassign]

/-- A copy, in the width that one of the operands states. -/
theorem copy_eq {c c' : Core} {w : Width} {dst src : Operand}
    {y : BitVec w.bits} (hwidth : (dst.width? <|> src.width?) = some w)
    (hvalue : c.value w src = some y)
    (hassign : c.assign w dst y = some c') :
    c.copy dst src = some c' := by
  simp [copy, hwidth, hvalue, hassign]

theorem compare_immediate {c : Core} {w : Width} {dst : Operand}
    {x : BitVec w.bits} (n : Nat) (hwidth : dst.width? = some w)
    (hvalue : c.value w dst = some x) :
    c.compare dst (.immediate n)
      = some { c with equal := x == BitVec.ofNat w.bits n } := by
  simp [compare, hwidth, hvalue, value_immediate]

/-- A register is cleared by combining it with itself. -/
theorem combine_xor_self (c : Core) (r : Register) :
    c.combine (· ^^^ ·) (.register ⟨r, .dword⟩) (.register ⟨r, .dword⟩)
      = some { c.set r 0 with equal := true } := by
  have hzero : c.registers r ^^^ c.registers r = 0 := BitVec.xor_self
  have hflag : (c.registers r ^^^ c.registers r == 0) = true := by
    rw [hzero]
    rfl
  have hassign : c.assign .dword (.register ⟨r, .dword⟩)
      (c.registers r ^^^ c.registers r) = some (c.set r 0) := by
    rw [hzero]
    exact c.assign_dword r 0
  have hcombine := combine_eq (fun x y => x ^^^ y) rfl (c.value_dword r)
    (c.value_dword r) hassign
  exact hcombine.trans
    (congrArg (fun equal => some { c.set r 0 with equal }) hflag)

/-- A computation with a number in `ebx`. -/
theorem combine_head (c : Core)
    (f : ∀ {n}, BitVec n → BitVec n → BitVec n) (n : Nat) :
    ∃ equal, c.combine f head (.immediate n)
      = some { c.set .b (f (c.registers .b) (BitVec.ofNat 32 n)) with
          equal } :=
  ⟨_, combine_eq f rfl (value_dword c .b) (value_immediate c .dword n)
    (assign_dword c .b _)⟩

/-- A computation with a number in the cell under the head. -/
theorem combine_cell (c : Core)
    (f : ∀ {n}, BitVec n → BitVec n → BitVec n) (n : Nat) :
    ∃ equal, c.combine f (cell (some .byte)) (.immediate n)
      = some { c with
          memory := c.memory.put tapeLabel (c.registers .b)
            (f (c.memory tapeLabel (c.registers .b)) (BitVec.ofNat 8 n))
          equal } :=
  ⟨_, combine_eq f rfl (value_cell c (.inr rfl))
    (value_immediate c .byte n) (assign_cell c (.inr rfl) _)⟩

-- ========================================================== the stack

theorem pointer_push (c : Core) (x : Word) :
    (c.push x).registers .sp = c.registers .sp - 4 :=
  registers_set_same c .sp _

theorem registers_push_of_ne {r : Register} (h : r ≠ .sp) (c : Core)
    (x : Word) : (c.push x).registers r = c.registers r :=
  registers_set_of_ne h c _

/-- Taking a value off the stack changes the stack, its pointer, and
nothing else. -/
theorem pop_eq {c : Core} {x : Word} {rest : List Word}
    (hstack : c.stack = x :: rest) :
    ∃ c', c.pop = some (x, c')
      ∧ c'.stack = rest
      ∧ c'.registers .sp = c.registers .sp + 4
      ∧ (∀ r, r ≠ .sp → c'.registers r = c.registers r)
      ∧ c'.memory = c.memory
      ∧ c'.console = c.console := by
  refine ⟨{ c.set .sp (c.registers .sp + 4) with stack := rest }, ?_, rfl,
    registers_set_same c .sp _, fun r hr => registers_set_of_ne hr c _,
    rfl, rfl⟩
  rw [pop, hstack]

-- ======================================================= the routines

/-- What a routine keeps. -/
structure Keeps (c c' : Core) : Prop where
  registers : ∀ r, r ∉ [Register.a, .c, .d] →
    c'.registers r = c.registers r
  memory : c'.memory = c.memory
  stack : c'.stack = c.stack

theorem Keeps.refl (c : Core) : c.Keeps c := ⟨fun _ _ => rfl, rfl, rfl⟩

theorem Keeps.trans {c₁ c₂ c₃ : Core} (h : c₁.Keeps c₂)
    (h' : c₂.Keeps c₃) : c₁.Keeps c₃ where
  registers r hr := (h'.registers r hr).trans (h.registers r hr)
  memory := h'.memory.trans h.memory
  stack := h'.stack.trans h.stack

/-- A register that need not be kept may be set. -/
theorem Keeps.set {c c' : Core} (h : c.Keeps c') {r : Register}
    (hr : r ∈ [Register.a, .c, .d]) (x : Word) : c.Keeps (c'.set r x) where
  registers r' hr' := by
    have hne : r' ≠ r := fun heq => by
      rw [heq] at hr'
      exact hr' hr
    rw [registers_set_of_ne hne]
    exact h.registers r' hr'
  memory := h.memory
  stack := h.stack

/-- A call keeps all registers but the three that it need not save. -/
theorem keeps_clobber (c : Core) : c.Keeps c.clobber := by
  have h := (((Keeps.refl c).set (r := .a) (by decide)
    c.leftovers.head.a).set (r := .c) (by decide)
    c.leftovers.head.c).set (r := .d) (by decide) c.leftovers.head.d
  exact ⟨h.registers, h.memory, h.stack⟩

theorem keeps_write (c : Core) (x : Word) : c.Keeps (c.write x) :=
  ⟨(keeps_clobber c).registers, rfl, rfl⟩

theorem keeps_read (c : Core) : c.Keeps c.read := by
  have h := (keeps_clobber c).set (r := .a) (by decide)
    c.console.pending.head
  exact ⟨h.registers, rfl, rfl⟩

/-- Calls of the writing routine put the low byte of their argument
out, each time the same. -/
theorem effects_writes (count : Nat) {c : Core} {x : Word}
    {rest : List Word} (hstack : c.stack = x :: rest) :
    ∃ c', c.effects (List.replicate count (Build.call writeRoutine))
        = some c'
      ∧ c.Keeps c' ∧ c'.console = c.console.put (x.setWidth 8) count := by
  induction count generalizing c with
  | zero => exact ⟨c, rfl, .refl c, (Console.put_zero ..).symm⟩
  | succ count ih =>
      have hcall : c.effect (Build.call writeRoutine) = some (c.write x) := by
        show c.stack.head?.map c.write = some (c.write x)
        rw [hstack]
        rfl
      have hkeeps := c.keeps_write x
      obtain ⟨c', heffects, hkeeps', hconsole⟩ :=
        ih (hkeeps.stack.trans hstack)
      refine ⟨c', ?_, hkeeps.trans hkeeps', ?_⟩
      · rw [List.replicate_succ, effects_cons hcall]
        exact heffects
      · rw [hconsole, Console.put_succ]
        rfl

/-- Calls of the reading routine read on, and `eax` holds what was read
last. -/
theorem effects_reads (count : Nat) (c : Core) :
    ∃ c', c.effects (List.replicate (count + 1) (Build.call readRoutine))
        = some c'
      ∧ c.Keeps c' ∧ c'.console = c.console.take (count + 1)
      ∧ c'.registers .a = c.console.pending.get count := by
  have hcall (c : Core) : c.effect (Build.call readRoutine) = some c.read :=
    rfl
  induction count generalizing c with
  | zero =>
      have hlast : c.read.registers .a = c.console.pending.head :=
        registers_set_same c.clobber .a _
      exact ⟨c.read, rfl, c.keeps_read, rfl, hlast⟩
  | succ count ih =>
      obtain ⟨c', heffects, hkeeps, hconsole, hlast⟩ := ih c.read
      refine ⟨c', ?_, c.keeps_read.trans hkeeps, ?_, hlast⟩
      · rw [List.replicate_succ, effects_cons (hcall c)]
        exact heffects
      · rw [hconsole, Console.take_succ c.console (count + 1)]
        rfl

-- ===================================================== runs and tests

/-- An argument is taken off the stack again, into a register that need
not be kept. -/
theorem popInto_of_push {c c₁ : Core} {x : Word}
    (h : (c.push x).Keeps c₁) :
    ∃ c', c₁.popInto (.register ⟨.c, .dword⟩) = some c'
      ∧ c.Keeps c' ∧ c'.console = c₁.console := by
  obtain ⟨popped, hpop, hstack, hpointer, hother, hmemory, hconsole⟩ :=
    pop_eq (show c₁.stack = x :: c.stack from h.stack)
  have hkeeps : c.Keeps popped := by
    refine ⟨fun r hr => ?_, hmemory.trans h.memory, hstack⟩
    by_cases heq : r = .sp
    · rw [heq, hpointer, h.registers _ (by decide), pointer_push,
        BitVec.sub_add_cancel]
    · rw [hother r heq, h.registers r hr, registers_push_of_ne heq]
  refine ⟨popped.set .c x, ?_, hkeeps.set (by decide) x, hconsole⟩
  rw [popInto, hpop]
  exact assign_dword popped .c x

/-- A run of writes: the cell is pushed once and taken off again, and
the routine finds it on the stack every time in between. -/
theorem effects_runCode_write (c : Core) (count : Nat) :
    ∃ c', c.effects (runCode .write count) = some c'
      ∧ c.Keeps c'
      ∧ c'.console
        = c.console.put (c.memory tapeLabel (c.registers .b)) count := by
  let x : Word := c.memory.load tapeLabel (c.registers .b) .dword
  have hpush : c.effect (Build.push (cell (some .dword)))
      = some (c.push x) :=
    congrArg (Option.map c.push) c.value_cell_dword
  obtain ⟨c₁, hwrites, hkeeps, hconsole⟩ :=
    effects_writes count (show (c.push x).stack = x :: c.stack from rfl)
  obtain ⟨c', hpop, hkeeps', hconsole'⟩ := popInto_of_push hkeeps
  have heffect : c₁.effect (Build.pop (.register ⟨.c, .dword⟩))
      = some c' := hpop
  refine ⟨c', ?_, hkeeps', ?_⟩
  · rw [runCode_write, effects_cons hpush, effects_append hwrites]
    exact effects_cons heffect []
  · rw [hconsole', hconsole]
    exact congrArg (fun value => c.console.put value count)
      (Memory.setWidth_load_dword ..)

/-- A run of reads: every value is read, and the last one is kept in the
cell. -/
theorem effects_runCode_read (c : Core) (count : Nat) :
    ∃ c', c.effects (runCode .read (count + 1))
        = some { c' with
            memory := c'.memory.put tapeLabel (c'.registers .b)
              ((c.console.pending.get count).setWidth 8) }
      ∧ c.Keeps c' ∧ c'.console = c.console.take (count + 1) := by
  obtain ⟨c', hreads, hkeeps, hconsole, hlast⟩ := effects_reads count c
  refine ⟨c', ?_, hkeeps, hconsole⟩
  have heffect : c'.effect
        { mnemonic := "mov", operands := [cell none, scratch] }
      = some { c' with
          memory := c'.memory.put tapeLabel (c'.registers .b)
            ((c.console.pending.get count).setWidth 8) } := by
    rw [← hlast]
    exact copy_eq rfl c'.value_scratch (c'.assign_cell (.inl rfl) _)
  rw [runCode_read, effects_append hreads]
  exact effects_cons heffect []

/-- The test of a loop shows in the flag whether the cell is blank. -/
theorem effects_loopTest (c : Core) :
    ∃ c', c.effects loopTest = some c'
      ∧ c.Keeps c' ∧ c'.console = c.console
      ∧ c'.equal = (c.memory tapeLabel (c.registers .b) == 0) := by
  let x : Byte := c.memory tapeLabel (c.registers .b)
  let loaded := c.set .a (Access.set .lowByte (c.registers .a) x)
  have hload : c.effect
      { mnemonic := "mov", operands := [scratch, cell none] }
      = some loaded :=
    copy_eq rfl (c.value_cell (.inl rfl)) (c.assign_scratch x)
  have hvalue : loaded.value .byte scratch = some x := by
    rw [value_scratch]
    show some (Access.get .lowByte (loaded.registers .a)) = _
    rw [registers_set_same]
    exact congrArg some (Access.get_set .lowByte _ x)
  have htest : loaded.effect
      { mnemonic := "cmp", operands := [scratch, .immediate 0] }
      = some { loaded with equal := x == 0 } :=
    compare_immediate 0 rfl hvalue
  have hkeeps : c.Keeps loaded := (Keeps.refl c).set (by decide) _
  refine ⟨{ loaded with equal := x == 0 }, ?_,
    ⟨hkeeps.registers, hkeeps.memory, hkeeps.stack⟩, rfl, rfl⟩
  rw [loopTest_eq, effects_cons hload, effects_cons htest]
  rfl

end Core

end TapeAsm.Asm
