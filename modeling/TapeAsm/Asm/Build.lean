/-
Instructions by name. The builders of instructions with a destination
and a source check the pair, and pick a shorter encoding where there is
one: counting by one is `inc` and `dec`, and a register is cleared by
`xor` with itself.
-/
import TapeAsm.Asm.Instruction

namespace TapeAsm.Asm.Build

-- ======================================== destination and source

/-- The instruction with a destination and a source. A destination is a
register or memory, a source is anything but a label, and they are not
both memory. -/
def pair (mnemonic : String) (dst src : Operand) :
    Except Fault Instruction :=
  match dst, src with
  | .immediate _, _ => .error (.invalidPair mnemonic dst src)
  | .label _, _ => .error (.invalidPair mnemonic dst src)
  | _, .label _ => .error (.invalidPair mnemonic dst src)
  | .memory .., .memory .. => .error (.twoMemoryOperands mnemonic)
  | _, _ => .ok { mnemonic, operands := [dst, src] }

def inc (dst : Operand) : Instruction :=
  { mnemonic := "inc", operands := [dst] }

def dec (dst : Operand) : Instruction :=
  { mnemonic := "dec", operands := [dst] }

/-- Addition; to add one is to increment, with a shorter encoding. -/
def add (dst src : Operand) : Except Fault Instruction :=
  if src = .immediate 1 then .ok (inc dst) else pair "add" dst src

/-- Subtraction; to subtract one is to decrement. -/
def sub (dst src : Operand) : Except Fault Instruction :=
  if src = .immediate 1 then .ok (dec dst) else pair "sub" dst src

def xor (dst src : Operand) : Except Fault Instruction :=
  pair "xor" dst src

def cmp (dst src : Operand) : Except Fault Instruction :=
  pair "cmp" dst src

/-- A copy; a register that is to become zero is cleared by `xor`. -/
def mov (dst src : Operand) : Except Fault Instruction :=
  match dst with
  | .register part =>
    if src.isZero then xor (.register part) (.register part)
    else pair "mov" dst src
  | _ => pair "mov" dst src

-- ============================================================= others

def push (src : Operand) : Instruction :=
  { mnemonic := "push", operands := [src] }

def pop (dst : Operand) : Instruction :=
  { mnemonic := "pop", operands := [dst] }

def call (target : String) : Instruction :=
  { mnemonic := "call", operands := [.label target] }

def jmp (target : String) : Instruction :=
  { mnemonic := "jmp", operands := [.label target] }

/-- A jump that is taken if the last comparison found its two sides
equal. -/
def je (target : String) : Instruction :=
  { mnemonic := "je", operands := [.label target] }

/-- Makes a stack frame of `size` bytes at a nesting level. -/
def enter (size level : Nat) : Instruction :=
  { mnemonic := "enter", operands := [.immediate size, .immediate level] }

def leave : Instruction := { mnemonic := "leave", operands := [] }

/-- Pushes all general purpose registers. -/
def pusha : Instruction := { mnemonic := "pusha", operands := [] }

def popa : Instruction := { mnemonic := "popa", operands := [] }

def ret : Instruction := { mnemonic := "ret", operands := [] }

end TapeAsm.Asm.Build
