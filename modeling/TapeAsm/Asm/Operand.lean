/-
What an instruction works on: a part of a register, a number, a place
in a labelled buffer, or a label to jump to.
-/
import TapeAsm.Asm.Register

namespace TapeAsm.Asm

/-- The width of a memory operand, where the other operand leaves it
open. -/
inductive OperandSize where
  | byte
  | dword
deriving DecidableEq

/-- The word that states a width. -/
def OperandSize.text : OperandSize → String
  | .byte => "byte"
  | .dword => "dword"

/-- An operand of an instruction. -/
inductive Operand where
  | register (part : RegisterPart)
  | immediate (value : Nat)
  /-- The place `index` bytes into the buffer named `buffer`. -/
  | memory (size : Option OperandSize) (buffer : String)
      (index : RegisterPart)
  | label (name : String)
deriving DecidableEq

namespace Operand

/-- Whether an operand is the number zero. -/
def isZero : Operand → Bool
  | .immediate 0 => true
  | _ => false

/-- An operand as the assembler reads it. -/
def text : Operand → String
  | .register part => part.text
  | .immediate value => toString value
  | .memory none buffer index =>
    "[" ++ buffer ++ "+" ++ index.text ++ "]"
  | .memory (some size) buffer index =>
    size.text ++ " [" ++ buffer ++ "+" ++ index.text ++ "]"
  | .label name => name

end Operand

end TapeAsm.Asm
