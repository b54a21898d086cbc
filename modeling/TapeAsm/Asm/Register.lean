/-
The general purpose registers of the 32 bit machine and the parts of
them that an instruction can name. The name of a part is made from the
name of its register: the four data registers have byte parts (`al`,
`ah`) and take an `x` for their low half (`ax`), and every whole
register takes an `e` in front of its low half (`eax`, `esp`).
-/

namespace TapeAsm.Asm

/-- A register: the stem of its names, whether its two low bytes have
names of their own, and its number in machine code. -/
structure Register where
  name : String
  byteAccess : Bool
  number : Nat
deriving DecidableEq

namespace Register

def a : Register := ⟨"a", true, 0⟩

def c : Register := ⟨"c", true, 1⟩

def d : Register := ⟨"d", true, 2⟩

def b : Register := ⟨"b", true, 3⟩

def sp : Register := ⟨"sp", false, 4⟩

def bp : Register := ⟨"bp", false, 5⟩

def si : Register := ⟨"si", false, 6⟩

def di : Register := ⟨"di", false, 7⟩

/-- The registers in the order of their numbers. -/
def all : List Register := [a, c, d, b, sp, bp, si, di]

end Register

/-- The parts of a register: the lowest byte, the one above it, the low
half, and the whole. -/
inductive Access where
  | lowByte
  | highByte
  | word
  | dword
deriving DecidableEq

/-- A part of a register, as an operand names it. -/
structure RegisterPart where
  register : Register
  access : Access
deriving DecidableEq

namespace RegisterPart

/-- Whether the part has a name at all. -/
def isNamed (part : RegisterPart) : Bool :=
  match part.access with
  | .lowByte => part.register.byteAccess
  | .highByte => part.register.byteAccess
  | .word => true
  | .dword => true

/-- The name of the low half of a register. -/
def wordName (register : Register) : String :=
  if register.number ≤ 3 then register.name ++ "x" else register.name

/-- The name of a part; one without a name gets the spelling that it
would have. -/
def text (part : RegisterPart) : String :=
  match part.access with
  | .lowByte => part.register.name ++ "l"
  | .highByte => part.register.name ++ "h"
  | .word => wordName part.register
  | .dword => "e" ++ wordName part.register

end RegisterPart

end TapeAsm.Asm
