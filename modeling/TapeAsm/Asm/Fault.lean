/-
What cannot be assembled: a byte part that a register does not have, an
address whose index is not a whole register, a pair of operands that no
instruction takes. A fault is a mistake of whoever puts an instruction
together, so its wording spells the operands out as records.
-/
import TapeAsm.Asm.Operand
import TapeAsm.Text.Escape

namespace TapeAsm.Asm

/-- Why an instruction cannot be built or written down. -/
inductive Fault where
  /-- The register has no byte parts. -/
  | noByteAccess (part : RegisterPart)
  /-- The index of a memory operand is not a whole register. -/
  | indexNotDword (access : Access)
  /-- The destination cannot be written to, or the source is a label. -/
  | invalidPair (mnemonic : String) (dst src : Operand)
  | twoMemoryOperands (mnemonic : String)
deriving DecidableEq

-- ============================================================ wording

/-- A part of a register, by what it covers. -/
def Access.title : Access → String
  | .lowByte => "LowByte"
  | .highByte => "HighByte"
  | .word => "LowTwoBytes"
  | .dword => "LowFourBytes"

/-- A register as a record. -/
def Register.outline (register : Register) : String :=
  "Registers \x7b name: " ++ Text.quoted register.name
    ++ ", supports_byte_access: " ++ toString register.byteAccess
    ++ ", index: " ++ toString register.number ++ " \x7d"

/-- A part of a register as a pair. -/
def RegisterPart.outline (part : RegisterPart) : String :=
  "(" ++ part.register.outline ++ ", " ++ part.access.title ++ ")"

/-- The width of a memory operand, given or not. -/
def OperandSize.outline : Option OperandSize → String
  | none => "None"
  | some .byte => "Some(Byte)"
  | some .dword => "Some(Dword)"

/-- An operand as a record. -/
def Operand.outline : Operand → String
  | .register part => "Register(" ++ part.outline ++ ")"
  | .immediate value => "Immediate(" ++ toString value ++ ")"
  | .memory size buffer index =>
    "Memory \x7b size: " ++ OperandSize.outline size ++ ", symbol: "
      ++ Text.quoted buffer ++ ", index: " ++ index.outline ++ " \x7d"
  | .label name => "Label(" ++ Text.quoted name ++ ")"

/-- The wording of a fault. -/
def Fault.message : Fault → String
  | .noByteAccess part =>
    part.register.outline ++ " doesn't support " ++ part.access.title
      ++ " access."
  | .indexNotDword access =>
    "assertion `left == right` failed\n  left: " ++ access.title
      ++ "\n right: " ++ Access.dword.title
  | .invalidPair mnemonic dst src =>
    "internal error: entered unreachable code: " ++ dst.outline ++ ", "
      ++ src.outline ++ " is not a valid operand pair for " ++ mnemonic
  | .twoMemoryOperands mnemonic =>
    "internal error: entered unreachable code: " ++ mnemonic
      ++ " can't take two memory operands"

-- =========================================================== operands

/-- What keeps a part of a register from being written down. -/
def RegisterPart.fault? (part : RegisterPart) : Option Fault :=
  if part.isNamed then none else some (.noByteAccess part)

/-- What keeps an operand from being written down. -/
def Operand.fault? : Operand → Option Fault
  | .register part => part.fault?
  | .immediate _ => none
  | .memory _ _ index =>
    if index.access = .dword then none
    else some (.indexNotDword index.access)
  | .label _ => none

end TapeAsm.Asm
