/-
The alphabet of the tape language: six operations and two brackets.
Every other character is a token of its own kind, except the four
blanks, which are no tokens at all.
-/
import TapeAsm.Source.Position
import TapeAsm.Text.Escape

namespace TapeAsm

-- ======================================================== operations

/-- The six operations on the tape and the head that stands over it. -/
inductive Op where
  | moveRight
  | moveLeft
  | increment
  | decrement
  | write
  | read
deriving DecidableEq

/-- The character that stands for an operation. -/
def Op.symbol : Op → Char
  | .moveRight => '>'
  | .moveLeft => '<'
  | .increment => '+'
  | .decrement => '-'
  | .write => '.'
  | .read => ','

-- ======================================================= token kinds

/-- What a token is, apart from its place. -/
inductive TokenKind where
  | op (op : Op)
  | loopOpen
  | loopClose
  /-- The mark behind the last character. -/
  | endOfInput
  /-- A character without a meaning in the language. -/
  | other (c : Char)
deriving DecidableEq

namespace TokenKind

/-- The kind of token that a character makes. -/
def ofChar : Char → TokenKind
  | '>' => .op .moveRight
  | '<' => .op .moveLeft
  | '+' => .op .increment
  | '-' => .op .decrement
  | '.' => .op .write
  | ',' => .op .read
  | '[' => .loopOpen
  | ']' => .loopClose
  | c => .other c

/-- The character that a token was made from; the end of the input has
none. -/
def symbol? : TokenKind → Option Char
  | .op o => some o.symbol
  | .loopOpen => some '['
  | .loopClose => some ']'
  | .endOfInput => none
  | .other c => some c

/-- A token of a text remembers its character. -/
theorem symbol?_ofChar (c : Char) : (ofChar c).symbol? = some c := by
  unfold ofChar
  split <;> rfl

/-- The end of the input is made from no character. -/
theorem ofChar_ne_endOfInput (c : Char) : ofChar c ≠ .endOfInput := by
  intro h
  have hsymbol := symbol?_ofChar c
  rw [h] at hsymbol
  cases hsymbol

/-- A kind of token as messages name it. -/
def text (kind : TokenKind) : String :=
  match kind.symbol? with
  | some c => "`" ++ Text.escapeChar c ++ "`"
  | none => "end of input"

end TokenKind

/-- A token and the place of its first character. -/
structure Token where
  kind : TokenKind
  position : Position
deriving DecidableEq

/-- Whether a character only lays out the text: space, tab, carriage
return or line feed. -/
def isBlank (c : Char) : Bool :=
  c = ' ' || c = '\t' || c = '\r' || c = '\n'

end TapeAsm
