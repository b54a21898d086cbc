/-
The stack frame of a compiled program. The prologue saves the registers
of its caller (`Core.framed`) and puts the head on the first cell of the
tape; the epilogue, from any state in which the stack is back where the
prologue left it, gives the caller what it is due under the C convention
(`Core.effects_restoring`): its stack, its registers, and the answer
zero.

Registers are pushed and popped in rows, so what is said of that is
proved by induction over the row.
-/
import TapeAsm.Proofs.Asm.Effects

namespace TapeAsm.Asm

/-- The instructions of the epilogue before the return. -/
def restoring : List Instruction :=
  [Build.popa, { mnemonic := "xor", operands := [answer, answer] },
    Build.leave]

theorem epilogue_eq_restoring : epilogue = restoring ++ [Build.ret] := rfl

namespace Core

-- =============================================================== rows

/-- Pushes the values of several registers. -/
def pushRow (c : Core) (values : Register → Word) (rs : List Register) :
    Core :=
  rs.foldl (fun c' r => c'.push (values r)) c

theorem stack_pushRow (values : Register → Word) (rs : List Register)
    (c : Core) :
    (c.pushRow values rs).stack = (rs.map values).reverse ++ c.stack := by
  induction rs generalizing c with
  | nil => rfl
  | cons r rs ih =>
      show ((c.push (values r)).pushRow values rs).stack = _
      rw [ih, List.map_cons, List.reverse_cons, List.append_assoc]
      rfl

theorem pointer_pushRow (values : Register → Word) (rs : List Register)
    (c : Core) :
    (c.pushRow values rs).registers .sp
      = c.registers .sp - BitVec.ofNat 32 (4 * rs.length) := by
  induction rs generalizing c with
  | nil => simp [pushRow]
  | cons r rs ih =>
      show ((c.push (values r)).pushRow values rs).registers .sp = _
      rw [ih, pointer_push, List.length_cons, Nat.mul_succ,
        BitVec.ofNat_add]
      generalize BitVec.ofNat 32 (4 * rs.length) = n
      bv_omega

/-- Popping a register takes one value off the stack. -/
theorem popRegister_eq {c : Core} {x : Word} {rest : List Word}
    (hstack : c.stack = x :: rest) (r : Register) :
    ∃ c', c.popRegister r = some c'
      ∧ c'.stack = rest
      ∧ c'.registers .sp = c.registers .sp + 4
      ∧ (∀ r', r' ≠ .sp → c'.registers r'
        = if r' = r then x else c.registers r')
      ∧ c'.console = c.console := by
  obtain ⟨popped, hpop, hstack', hpointer, hother, -, hconsole⟩ :=
    pop_eq hstack
  have hload : c.popRegister r
      = some (if r = .sp then popped else popped.set r x) := by
    rw [popRegister, hpop]
    rfl
  by_cases hr : r = .sp
  · rw [if_pos hr] at hload
    refine ⟨popped, hload, hstack', hpointer, fun r' hr' => ?_, hconsole⟩
    rw [if_neg (fun heq => hr' (heq.trans hr)), hother r' hr']
  · rw [if_neg hr] at hload
    refine ⟨popped.set r x, hload, hstack', ?_, fun r' hr' => ?_,
      hconsole⟩
    · rw [registers_set_of_ne (Ne.symm hr), hpointer]
    · by_cases heq : r' = r
      · rw [if_pos heq, heq, registers_set_same]
      · rw [if_neg heq, registers_set_of_ne heq, hother r' hr']

/-- Popping registers takes as many values off the stack, and each
register but the stack pointer gets its own. -/
theorem popRegisters_eq (values : Register → Word) (rs : List Register)
    {c : Core} {rest : List Word}
    (hstack : c.stack = rs.map values ++ rest) :
    ∃ c', rs.foldlM popRegister c = some c'
      ∧ c'.stack = rest
      ∧ c'.registers .sp
        = c.registers .sp + BitVec.ofNat 32 (4 * rs.length)
      ∧ (∀ r, r ≠ .sp → c'.registers r
        = if r ∈ rs then values r else c.registers r)
      ∧ c'.console = c.console := by
  induction rs generalizing c with
  | nil => exact ⟨c, rfl, hstack, by simp, fun r _ => by simp, rfl⟩
  | cons r rs ih =>
      obtain ⟨c₁, hpop, hstack₁, hpointer₁, hother₁, hconsole₁⟩ :=
        popRegister_eq hstack r
      obtain ⟨c', hrest, hstack', hpointer', hother', hconsole'⟩ :=
        ih hstack₁
      refine ⟨c', ?_, hstack', ?_, fun r' hr' => ?_,
        hconsole'.trans hconsole₁⟩
      · rw [List.foldlM_cons, hpop]
        exact hrest
      · rw [hpointer', hpointer₁, List.length_cons, Nat.mul_succ,
          BitVec.ofNat_add]
        generalize BitVec.ofNat 32 (4 * rs.length) = n
        bv_omega
      · rw [hother' r' hr', hother₁ r' hr']
        by_cases hmem : r' ∈ rs
        · simp [hmem]
        · by_cases heq : r' = r
          · simp [heq]
          · simp [hmem, heq]

/-- What `pusha` has saved, `popa` gives back. -/
theorem popAll_of_pushAll {c c' : Core}
    (hstack : c'.stack = c.pushAll.stack)
    (hpointer : c'.registers .sp = c.pushAll.registers .sp) :
    ∃ c₁, c'.popAll = some c₁
      ∧ c₁.stack = c.stack
      ∧ (∀ r ∈ Register.all, c₁.registers r = c.registers r)
      ∧ c₁.console = c'.console := by
  have hsaved : c'.stack
      = Register.all.reverse.map c.registers ++ c.stack := by
    rw [hstack, List.map_reverse]
    exact stack_pushRow c.registers Register.all c
  obtain ⟨c₁, hpop, hstack₁, hpointer₁, hother₁, hconsole₁⟩ :=
    popRegisters_eq c.registers Register.all.reverse hsaved
  refine ⟨c₁, hpop, hstack₁, fun r hr => ?_, hconsole₁⟩
  by_cases hsp : r = .sp
  · have hpushed : c.pushAll.registers .sp
        = c.registers .sp - BitVec.ofNat 32 (4 * Register.all.length) :=
      pointer_pushRow c.registers Register.all c
    rw [hsp, hpointer₁, hpointer, hpushed, List.length_reverse,
      BitVec.sub_add_cancel]
  · rw [hother₁ r hsp, if_pos (List.mem_reverse.mpr hr)]

-- ======================================================= the prologue

/-- The state with a stack frame of its own, and the registers of the
caller saved in it. -/
def framed (c : Core) : Core := c.enter.pushAll

/-- The prologue makes a frame and puts the head on the first cell. -/
theorem effects_prologue (c : Core) :
    c.effects prologue
      = some { c.framed.set .b 0 with equal := true } := by
  have henter : c.effect (Build.enter 0 0) = some c.enter := rfl
  have hpush : c.enter.effect Build.pusha = some c.framed := rfl
  have hclear : c.framed.effect
      { mnemonic := "xor", operands := [head, head] }
      = some { c.framed.set .b 0 with equal := true } :=
    c.framed.combine_xor_self .b
  rw [prologue_eq, effects_cons henter, effects_cons hpush,
    effects_cons hclear]
  rfl

-- ======================================================= the epilogue

/-- A frame that has nothing above it is left in one pop. -/
theorem leave_eq {c : Core} {x : Word} {rest : List Word}
    (hframe : c.registers .bp = c.registers .sp)
    (hstack : c.stack = x :: rest) :
    ∃ c', c.leave = some c'
      ∧ c'.stack = rest
      ∧ c'.registers .sp = c.registers .sp + 4
      ∧ c'.registers .bp = x
      ∧ (∀ r, r ∉ [Register.sp, .bp] → c'.registers r = c.registers r)
      ∧ c'.console = c.console := by
  let dropped : Core :=
    { c.set .sp (c.registers .bp) with stack := x :: rest }
  obtain ⟨popped, hpop, hstack', hpointer, hother, -, hconsole⟩ :=
    pop_eq (show dropped.stack = x :: rest from rfl)
  have hleave : c.leave = some (popped.set .bp x) := by
    have hdepth : (c.registers .bp - c.registers .sp).toNat = 0 := by
      rw [hframe, BitVec.sub_self]
      rfl
    simp only [leave, hdepth, hstack, if_true]
    exact congrArg (Option.map _) hpop
  have hdropped : dropped.registers .sp = c.registers .sp :=
    (registers_set_same c .sp _).trans hframe
  refine ⟨popped.set .bp x, hleave, hstack', ?_, registers_set_same ..,
    fun r hr => ?_, hconsole⟩
  · rw [registers_set_of_ne (by decide), hpointer, hdropped]
  · simp only [List.mem_cons, List.not_mem_nil, or_false, not_or] at hr
    rw [registers_set_of_ne hr.2, hother r hr.1]
    exact registers_set_of_ne hr.1 c _

/-- A new frame stands where the old frame pointer is saved. -/
theorem enter_eq (c : Core) :
    c.enter.stack = c.registers .bp :: c.stack
      ∧ c.enter.registers .sp = c.registers .sp - 4
      ∧ c.enter.registers .bp = c.enter.registers .sp
      ∧ ∀ r, r ∉ [Register.sp, .bp] →
        c.enter.registers r = c.registers r := by
  let saved := c.push (c.registers .bp)
  have hother : ∀ r, r ≠ .bp → c.enter.registers r = saved.registers r :=
    fun r hr => registers_set_of_ne hr saved _
  have hsp : saved.registers .sp = c.registers .sp - 4 :=
    c.pointer_push (c.registers .bp)
  have hbp : c.enter.registers .bp = saved.registers .sp :=
    registers_set_same saved .bp _
  refine ⟨rfl, (hother _ (by decide)).trans hsp,
    hbp.trans (hother _ (by decide)).symm, fun r hr => ?_⟩
  simp only [List.mem_cons, List.not_mem_nil, or_false, not_or] at hr
  rw [hother r hr.2, registers_push_of_ne hr.1]

/-- The epilogue gives the caller back its stack and its registers, with
the answer zero. -/
theorem effects_restoring {c c' : Core}
    (hstack : c'.stack = c.framed.stack)
    (hpointer : c'.registers .sp = c.framed.registers .sp) :
    ∃ c₁, c'.effects restoring = some c₁
      ∧ c₁.stack = c.stack
      ∧ c₁.registers .a = 0
      ∧ (∀ r ∈ [Register.b, .sp, .bp, .si, .di],
        c₁.registers r = c.registers r)
      ∧ c₁.console = c'.console := by
  obtain ⟨hentered, hsp, hbp, hkept⟩ := c.enter_eq
  obtain ⟨c₁, hpop, hstack₁, hregisters, hconsole₁⟩ :=
    popAll_of_pushAll hstack hpointer
  let cleared : Core := { c₁.set .a 0 with equal := true }
  have hclear : c₁.effect
      { mnemonic := "xor", operands := [answer, answer] } = some cleared :=
    c₁.combine_xor_self .a
  have hother : ∀ r ∈ Register.all, r ≠ .a →
      cleared.registers r = c.enter.registers r := by
    intro r hr ha
    rw [← hregisters r hr]
    exact registers_set_of_ne ha c₁ 0
  have hframe : cleared.registers .bp = cleared.registers .sp := by
    rw [hother _ (by decide) (by decide), hother _ (by decide) (by decide),
      hbp]
  obtain ⟨c₂, hleave, hstack₂, hsp₂, hbp₂, hother₂, hconsole₂⟩ :=
    leave_eq hframe (hstack₁.trans hentered)
  have hpopa : c'.effect Build.popa = some c₁ := hpop
  have hlast : cleared.effect Build.leave = some c₂ := hleave
  refine ⟨c₂, ?_, hstack₂, ?_, ?_, hconsole₂.trans hconsole₁⟩
  · rw [restoring, effects_cons hpopa, effects_cons hclear,
      effects_cons hlast]
    rfl
  · rw [hother₂ _ (by decide)]
    exact registers_set_same c₁ .a 0
  · have hsame : ∀ r, r ∉ [Register.sp, .bp] → r ∈ Register.all →
        r ≠ .a → c₂.registers r = c.registers r := by
      intro r hr hall ha
      rw [hother₂ r hr, hother r hall ha, hkept r hr]
    intro r hr
    simp only [List.mem_cons, List.not_mem_nil, or_false] at hr
    rcases hr with rfl | rfl | rfl | rfl | rfl
    · exact hsame _ (by decide) (by decide) (by decide)
    · rw [hsp₂, hother _ (by decide) (by decide), hsp,
        BitVec.sub_add_cancel]
    · exact hbp₂
    · exact hsame _ (by decide) (by decide) (by decide)
    · exact hsame _ (by decide) (by decide) (by decide)

end Core

end TapeAsm.Asm
