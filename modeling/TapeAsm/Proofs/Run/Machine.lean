/-
Running an assembly text. The machine is the part of a 32 bit processor
that the text needs: registers of which the parts can be used, one flag,
buffers of bytes that are found by their label, a stack of double words,
and the console behind two routines. A run stands at a line of the text;
labels are passed, and a jump goes to the line that defines its label.

What one instruction does, jumps apart, does not depend on the line it
stands on (`Core.effect`). Instructions outside the part, and operands
of the wrong width, are not executed: the run is stuck there. So it is
at `ret`, which is where a run is meant to end.

# The routines

A routine keeps what the C convention lets a caller rely on: the stack
with its arguments, the memory, and the registers other than `eax`,
`ecx` and `edx`. What it leaves in those three and in the flag is
anybody's guess (`Leftover`), apart from the value of a read in `eax`.
-/
import TapeAsm.Asm.Listing
import TapeAsm.Proofs.Run.System
import TapeAsm.Proofs.Run.Tape

namespace TapeAsm.Asm

-- ============================================================= widths

/-- How wide a value is. -/
inductive Width where
  | byte
  | word
  | dword
deriving DecidableEq

namespace Width

def bits : Width → Nat
  | byte => 8
  | word => 16
  | dword => 32

end Width

def OperandSize.width : OperandSize → Width
  | .byte => .byte
  | .dword => .dword

namespace Access

def width : Access → Width
  | lowByte => .byte
  | highByte => .byte
  | word => .word
  | dword => .dword

/-- A part of the value of a register. -/
def get (access : Access) (value : Word) : BitVec access.width.bits :=
  match access with
  | lowByte => value.extractLsb' 0 8
  | highByte => value.extractLsb' 8 8
  | word => value.extractLsb' 0 16
  | dword => value

/-- The value of a register with another part. -/
def set (access : Access) (value : Word) (part : BitVec access.width.bits) :
    Word :=
  match access with
  | lowByte => value.extractLsb' 8 24 ++ part
  | highByte => value.extractLsb' 16 16 ++ part ++ value.extractLsb' 0 8
  | word => value.extractLsb' 16 16 ++ part
  | dword => part

/-- A part is what it has been set to. -/
@[simp] theorem get_set (access : Access) (value : Word)
    (part : BitVec access.width.bits) :
    access.get (access.set value part) = part := by
  cases access with
  | lowByte => exact BitVec.extractLsb'_append_eq_right
  | highByte =>
      have hlow : (value.extractLsb' 16 16 ++ part
          ++ value.extractLsb' 0 8).extractLsb' 8 8
          = (value.extractLsb' 16 16 ++ part).extractLsb' 0 8 :=
        BitVec.extractLsb'_append_eq_of_le (Nat.le_refl 8)
      exact hlow.trans BitVec.extractLsb'_append_eq_right
  | word => exact BitVec.extractLsb'_append_eq_right
  | dword => rfl

end Access

namespace Operand

/-- The width that an operand states, if it states one. -/
def width? : Operand → Option Width
  | register part => some part.access.width
  | immediate _ => none
  | memory size _ _ => size.map OperandSize.width
  | label _ => none

/-- Whether an operand can be taken at a width. -/
def fits (o : Operand) (w : Width) : Bool :=
  o.width?.all (· = w)

end Operand

-- ============================================================= memory

/-- The bytes of the labelled buffers. A place beyond the end of a
buffer has a byte as well; nothing is known of it. -/
abbrev Memory := String → Word → Byte

namespace Memory

/-- The memory with another byte at a place. -/
def put (m : Memory) (buffer : String) (i : Word) (value : Byte) :
    Memory :=
  Function.update m buffer (Function.update (m buffer) i value)

/-- The value at a place, the lowest byte first. -/
def load (m : Memory) (buffer : String) (i : Word) :
    (w : Width) → BitVec w.bits
  | .byte => m buffer i
  | .word => m buffer (i + 1) ++ m buffer i
  | .dword =>
    m buffer (i + 3) ++ m buffer (i + 2) ++ m buffer (i + 1) ++ m buffer i

/-- The memory with another value at a place. -/
def store (m : Memory) (buffer : String) (i : Word) :
    (w : Width) → BitVec w.bits → Memory
  | .byte, x => m.put buffer i x
  | .word, x =>
    (m.put buffer i (x.extractLsb' 0 8)).put buffer (i + 1)
      (x.extractLsb' 8 8)
  | .dword, x =>
    (((m.put buffer i (x.extractLsb' 0 8)).put buffer (i + 1)
        (x.extractLsb' 8 8)).put buffer (i + 2)
        (x.extractLsb' 16 8)).put buffer (i + 3) (x.extractLsb' 24 8)

/-- A byte that is put somewhere is there. -/
@[simp] theorem put_same (m : Memory) (buffer : String) (i : Word)
    (value : Byte) : m.put buffer i value buffer i = value := by
  simp [put]

/-- All other bytes stay. -/
theorem put_of_ne {m : Memory} {buffer : String} {i j : Word}
    (h : j ≠ i) (value : Byte) :
    m.put buffer i value buffer j = m buffer j := by
  simp [put, h]

/-- The byte at a place is the lowest of the double word there. -/
theorem setWidth_load_dword (m : Memory) (buffer : String) (i : Word) :
    (m.load buffer i .dword).setWidth 8 = m buffer i :=
  BitVec.setWidth_append_eq_right

end Memory

-- ========================================================== the state

/-- What a routine leaves in the registers and the flag that it does not
keep. -/
structure Leftover where
  a : Word
  c : Word
  d : Word
  equal : Bool

/-- The state of the machine, the line apart. The stack is the part of
it that is in use, the top first, and `esp` counts along. -/
structure Core where
  registers : Register → Word
  equal : Bool
  memory : Memory
  stack : List Word
  console : Console
  /-- What the routines that are still to be called will leave. -/
  leftovers : Stream' Leftover

namespace Core

/-- The state with another value in a register. -/
def set (c : Core) (r : Register) (value : Word) : Core :=
  { c with registers := Function.update c.registers r value }

/-- The place in its buffer that an index gives. -/
def offset (c : Core) (index : RegisterPart) : Word :=
  (index.access.get (c.registers index.register)).setWidth 32

/-- The value of an operand at a width. -/
def value (c : Core) (w : Width) (o : Operand) : Option (BitVec w.bits) :=
  if o.fits w then
    match o with
    | .register part =>
      some ((part.access.get (c.registers part.register)).setWidth _)
    | .immediate n => some (BitVec.ofNat _ n)
    | .memory _ buffer index =>
      some (c.memory.load buffer (c.offset index) w)
    | .label _ => none
  else none

/-- The state with another value in an operand. -/
def assign (c : Core) (w : Width) (o : Operand) (x : BitVec w.bits) :
    Option Core :=
  if o.fits w then
    match o with
    | .register part =>
      some (c.set part.register
        (part.access.set (c.registers part.register) (x.setWidth _)))
    | .memory _ buffer index =>
      some { c with memory := c.memory.store buffer (c.offset index) w x }
    | .immediate _ => none
    | .label _ => none
  else none

-- =============================================== kinds of instruction

/-- Computes with a destination and a source; the flag tells whether the
result is zero. -/
def combine (c : Core) (f : ∀ {n}, BitVec n → BitVec n → BitVec n)
    (dst src : Operand) : Option Core := do
  let w ← dst.width? <|> src.width?
  let x ← c.value w dst
  let y ← c.value w src
  let c' ← c.assign w dst (f x y)
  return { c' with equal := f x y == 0 }

/-- Compares a destination and a source, for the flag only. -/
def compare (c : Core) (dst src : Operand) : Option Core := do
  let w ← dst.width? <|> src.width?
  let x ← c.value w dst
  let y ← c.value w src
  return { c with equal := x == y }

/-- Copies a source to a destination. -/
def copy (c : Core) (dst src : Operand) : Option Core := do
  let w ← dst.width? <|> src.width?
  let y ← c.value w src
  c.assign w dst y

def push (c : Core) (x : Word) : Core :=
  { c.set .sp (c.registers .sp - 4) with stack := x :: c.stack }

/-- The top of the stack, and the state without it. -/
def pop (c : Core) : Option (Word × Core) :=
  match c.stack with
  | [] => none
  | x :: rest =>
    some (x, { c.set .sp (c.registers .sp + 4) with stack := rest })

/-- Pops a destination. -/
def popInto (c : Core) (dst : Operand) : Option Core :=
  c.pop.bind fun (x, c') => c'.assign .dword dst x

/-- Begins a stack frame: saves the frame pointer, and lets it stand at
the top of the stack. -/
def enter (c : Core) : Core :=
  let saved := c.push (c.registers .bp)
  saved.set .bp (saved.registers .sp)

/-- Ends a stack frame: what is above the frame pointer is dropped, and
the one from before is taken back. -/
def leave (c : Core) : Option Core :=
  let depth := (c.registers .bp - c.registers .sp).toNat
  if depth % 4 = 0 then
    let dropped :=
      { c.set .sp (c.registers .bp) with stack := c.stack.drop (depth / 4) }
    dropped.pop.map fun (x, c') => c'.set .bp x
  else none

/-- Pushes the general purpose registers as they are, in the order of
their numbers. -/
def pushAll (c : Core) : Core :=
  Register.all.foldl (fun c' r => c'.push (c.registers r)) c

/-- Pops a register; the stack pointer is not loaded. -/
def popRegister (c : Core) (r : Register) : Option Core :=
  c.pop.map fun (x, c') => if r = .sp then c' else c'.set r x

/-- Pops the general purpose registers, the last one first. -/
def popAll (c : Core) : Option Core :=
  Register.all.reverse.foldlM popRegister c

-- ======================================================= the routines

/-- What is left behind by a routine. -/
def clobber (c : Core) : Core :=
  let left := c.leftovers.head
  { ((c.set .a left.a).set .c left.c).set .d left.d with
    equal := left.equal
    leftovers := c.leftovers.tail }

/-- The state after the low byte of a value has been put out. -/
def write (c : Core) (x : Word) : Core :=
  { c.clobber with console := c.console.put (x.setWidth 8) 1 }

/-- The state after a value has been read into `eax`. -/
def read (c : Core) : Core :=
  { c.clobber.set .a c.console.pending.head with
    console := c.console.take 1 }

/-- Calls a routine. The argument of a write is on top of the stack. -/
def call (c : Core) (routine : String) : Option Core :=
  if routine = writeRoutine then c.stack.head?.map c.write
  else if routine = readRoutine then some c.read
  else none

-- ======================================================= instructions

/-- What an instruction does, unless it is a jump. -/
def effect (c : Core) (i : Instruction) : Option Core :=
  match i.mnemonic, i.operands with
  | "inc", [dst] => c.combine (· + ·) dst (.immediate 1)
  | "dec", [dst] => c.combine (· - ·) dst (.immediate 1)
  | "add", [dst, src] => c.combine (· + ·) dst src
  | "sub", [dst, src] => c.combine (· - ·) dst src
  | "xor", [dst, src] => c.combine (· ^^^ ·) dst src
  | "cmp", [dst, src] => c.compare dst src
  | "mov", [dst, src] => c.copy dst src
  | "push", [src] => (c.value .dword src).map c.push
  | "pop", [dst] => c.popInto dst
  | "enter", [.immediate 0, .immediate 0] => some c.enter
  | "leave", [] => c.leave
  | "pusha", [] => some c.pushAll
  | "popa", [] => c.popAll
  | "call", [.label routine] => c.call routine
  | _, _ => none

-- ======================================================== the console

/-- To assign an operand is no event at the console. -/
theorem console_assign {c c' : Core} {w : Width} {o : Operand}
    {x : BitVec w.bits} (h : c.assign w o x = some c') :
    c'.console = c.console := by
  unfold assign at h
  split at h
  · split at h
    · cases h; rfl
    · cases h; rfl
    · cases h
    · cases h
  · cases h

theorem console_combine {c c' : Core}
    {f : ∀ {n}, BitVec n → BitVec n → BitVec n} {dst src : Operand}
    (h : c.combine f dst src = some c') : c'.console = c.console := by
  simp only [combine, Option.bind_eq_bind, Option.bind_eq_some_iff] at h
  obtain ⟨w, -, x, -, y, -, c₁, hassign, hc'⟩ := h
  cases hc'
  show c₁.console = c.console
  exact console_assign hassign

theorem console_compare {c c' : Core} {dst src : Operand}
    (h : c.compare dst src = some c') : c'.console = c.console := by
  simp only [compare, Option.bind_eq_bind, Option.bind_eq_some_iff] at h
  obtain ⟨w, -, x, -, y, -, hc'⟩ := h
  cases hc'
  rfl

theorem console_copy {c c' : Core} {dst src : Operand}
    (h : c.copy dst src = some c') : c'.console = c.console := by
  simp only [copy, Option.bind_eq_bind, Option.bind_eq_some_iff] at h
  obtain ⟨w, -, y, -, hassign⟩ := h
  exact console_assign hassign

/-- To take a value off the stack is no event either. -/
theorem console_pop {c c' : Core} {x : Word} (h : c.pop = some (x, c')) :
    c'.console = c.console := by
  unfold pop at h
  split at h
  · cases h
  · cases h; rfl

theorem console_popInto {c c' : Core} {dst : Operand}
    (h : c.popInto dst = some c') : c'.console = c.console := by
  simp only [popInto, Option.bind_eq_some_iff, Prod.exists] at h
  obtain ⟨x, c₁, hpop, hassign⟩ := h
  exact (console_assign hassign).trans (console_pop hpop)

/-- To take a frame down is no event at the console. -/
theorem console_leave {c c' : Core} (h : c.leave = some c') :
    c'.console = c.console := by
  simp only [leave, Option.ite_none_right_eq_some, Option.map_eq_some_iff,
    Prod.exists] at h
  obtain ⟨-, x, c₁, hpop, rfl⟩ := h
  have hsame := console_pop hpop
  exact hsame

theorem console_popRegister {c c' : Core} {r : Register}
    (h : c.popRegister r = some c') : c'.console = c.console := by
  simp only [popRegister, Option.map_eq_some_iff, Prod.exists] at h
  obtain ⟨x, c₁, hpop, rfl⟩ := h
  have hsame := console_pop hpop
  split
  · exact hsame
  · exact hsame

/-- To restore registers is none, by induction on the registers. -/
theorem console_popRegisters {rs : List Register} {c c' : Core}
    (h : rs.foldlM popRegister c = some c') : c'.console = c.console := by
  induction rs generalizing c with
  | nil =>
      cases h
      rfl
  | cons r rs ih =>
      simp only [List.foldlM_cons, Option.bind_eq_bind,
        Option.bind_eq_some_iff] at h
      obtain ⟨c₁, hpop, hrest⟩ := h
      exact (ih hrest).trans (console_popRegister hpop)

/-- A routine puts something on record. -/
theorem events_call {c c' : Core} {routine : String}
    (h : c.call routine = some c') :
    c.console.events <+: c'.console.events := by
  unfold call at h
  split at h
  · simp only [Option.map_eq_some_iff] at h
    obtain ⟨x, -, rfl⟩ := h
    exact Console.events_put ..
  · split at h
    · cases h
      exact Console.events_take ..
    · cases h

/-- Only the routines use the console, and they take nothing back. -/
theorem events_effect {c c' : Core} {i : Instruction}
    (h : c.effect i = some c') :
    c.console.events <+: c'.console.events := by
  have hsame : c'.console = c.console →
      c.console.events <+: c'.console.events := by
    intro heq
    rw [heq]
  unfold effect at h
  split at h
  · exact hsame (console_combine h)
  · exact hsame (console_combine h)
  · exact hsame (console_combine h)
  · exact hsame (console_combine h)
  · exact hsame (console_combine h)
  · exact hsame (console_compare h)
  · exact hsame (console_copy h)
  · obtain ⟨x, -, rfl⟩ := Option.map_eq_some_iff.mp h
    exact hsame rfl
  · exact hsame (console_popInto h)
  · cases h
    exact hsame rfl
  · exact hsame (console_leave h)
  · cases h
    exact hsame rfl
  · exact hsame (console_popRegisters h)
  · exact events_call h
  · cases h

end Core

-- ======================================================== the machine

/-- The line that a run stands at, and the state there. -/
structure Machine where
  line : Nat
  core : Core

namespace Machine

/-- The line that defines a label. -/
def target (code : List Line) (label : String) : Option Nat :=
  code.idxOf? (.label label)

/-- One step of a run of an assembly text. -/
def step (code : List Line) (m : Machine) : Option Machine :=
  match code[m.line]? with
  | some (.label _) => some ⟨m.line + 1, m.core⟩
  | some (.instruction i) =>
    match i.mnemonic, i.operands with
    | "jmp", [.label label] =>
      (target code label).map fun line => ⟨line, m.core⟩
    | "je", [.label label] =>
      if m.core.equal then
        (target code label).map fun line => ⟨line, m.core⟩
      else some ⟨m.line + 1, m.core⟩
    | _, _ => (m.core.effect i).map fun c => ⟨m.line + 1, c⟩
  | _ => none

/-- The run stands where it returns to its caller. -/
def Returns (code : List Line) (m : Machine) : Prop :=
  code[m.line]? = some (.instruction Build.ret)

/-- A run that stands where it returns has come to an end. -/
theorem Returns.step_eq_none {code : List Line} {m : Machine}
    (h : m.Returns code) : m.step code = none := by
  unfold step
  rw [Returns] at h
  rw [h]
  rfl

/-- A step is over a label or a jump, and then only the flag decides
where it leads, or it is the effect of an instruction. -/
theorem step_cases {code : List Line} {m m' : Machine}
    (h : step code m = some m') :
    (∃ line, m' = ⟨line, m.core⟩ ∧ ∀ d : Core, d.equal = m.core.equal →
      step code ⟨m.line, d⟩ = some ⟨line, d⟩)
      ∨ ∃ i c, code[m.line]? = some (.instruction i)
        ∧ m.core.effect i = some c ∧ m' = ⟨m.line + 1, c⟩ := by
  unfold step at h
  split at h
  · rename_i hline
    cases h
    refine .inl ⟨_, rfl, fun d _ => ?_⟩
    simp only [step, hline]
  · rename_i i hline
    split at h
    · rename_i label hmnemonic hoperands
      obtain ⟨line, htarget, rfl⟩ := Option.map_eq_some_iff.mp h
      refine .inl ⟨line, rfl, fun d _ => ?_⟩
      simp [step, hline, hmnemonic, hoperands, htarget]
    · rename_i label hmnemonic hoperands
      split at h
      · rename_i hequal
        obtain ⟨line, htarget, rfl⟩ := Option.map_eq_some_iff.mp h
        refine .inl ⟨line, rfl, fun d hd => ?_⟩
        simp [step, hline, hmnemonic, hoperands, htarget, hd, hequal]
      · rename_i hunequal
        cases h
        refine .inl ⟨_, rfl, fun d hd => ?_⟩
        simp [step, hline, hmnemonic, hoperands, hd, hunequal]
    · obtain ⟨c, heffect, rfl⟩ := Option.map_eq_some_iff.mp h
      exact .inr ⟨i, c, hline, heffect, rfl⟩
  · cases h

/-- What has happened at the console stays. -/
theorem events_step {code : List Line} {m m' : Machine}
    (h : step code m = some m') :
    m.core.console.events <+: m'.core.console.events := by
  obtain ⟨line, rfl, -⟩ | ⟨i, c, -, heffect, rfl⟩ := step_cases h
  · exact List.prefix_refl _
  · exact Core.events_effect heffect

/-- An assembly text as a system. -/
def system (code : List Line) : System Machine Event where
  step := step code
  record m := m.core.console.events
  record_step := events_step

end Machine

end TapeAsm.Asm
