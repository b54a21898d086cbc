/-
Instructions and the lines of an assembly text. An instruction is set
in three columns: the mnemonic behind an indent, the operands, and a
comment. A text without operands or without a comment ends where its
last part ends.
-/
import TapeAsm.Asm.Fault
import TapeAsm.Text.Pad

namespace TapeAsm.Asm

-- ======================================================= instructions

/-- An instruction, with a comment or without. -/
structure Instruction where
  mnemonic : String
  operands : List Operand
  comment : Option String := none
deriving DecidableEq

namespace Instruction

/-- The instruction with the given comment, in the place of any
earlier one. -/
def remark (i : Instruction) (comment : String) : Instruction :=
  { i with comment := some comment }

/-- The blanks before a mnemonic. -/
def indent : String := "    "

/-- The width of the column of mnemonics. -/
def mnemonicWidth : Nat := 8

/-- The width of everything before a comment. -/
def codeWidth : Nat := 39

/-- The operands as the assembler reads them. -/
def operandText (i : Instruction) : String :=
  ", ".intercalate (i.operands.map Operand.text)

/-- An instruction without its comment. -/
def code (i : Instruction) : String :=
  match i.operands with
  | [] => indent ++ i.mnemonic
  | _ => indent ++ Text.padRight mnemonicWidth i.mnemonic ++ i.operandText

/-- An instruction as a line of text; at least one blank stands before
a comment. -/
def text (i : Instruction) : String :=
  match i.comment with
  | none => i.code
  | some comment => Text.padRight codeWidth i.code ++ " ; " ++ comment

/-- What keeps an instruction from being written down: the fault of its
first faulty operand. -/
def fault? (i : Instruction) : Option Fault :=
  i.operands.findSome? Operand.fault?

end Instruction

-- ============================================================== lines

/-- A line of an assembly text. -/
inductive Line where
  | directive (text : String)
  | label (name : String)
  | instruction (i : Instruction)
deriving DecidableEq

namespace Line

/-- A line as the assembler reads it. -/
def text : Line → String
  | directive text => text
  | label name => name ++ ":"
  | instruction i => i.text

/-- What keeps a line from being written down. -/
def fault? : Line → Option Fault
  | directive _ => none
  | label _ => none
  | instruction i => i.fault?

/-- A line as the assembler reads it, if it can be written down. -/
def render (line : Line) : Except Fault String :=
  match line.fault? with
  | none => .ok line.text
  | some fault => .error fault

end Line

end TapeAsm.Asm
