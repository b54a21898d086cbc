/-
Characters and strings as they appear inside messages. A character
stands for itself when it is printable and does not join its
neighbour; the usual control characters, quotes and the backslash take
a backslash; everything else is written as its code in hexadecimal.
-/
import TapeAsm.Text.Joining
import TapeAsm.Text.Unprintable

namespace TapeAsm.Text

/-- Whether a code point lies in one of the ranges. -/
def inRanges (ranges : List (Nat × Nat)) (code : Nat) : Bool :=
  ranges.any fun range => range.1 ≤ code && code ≤ range.2

/-- Whether a character can stand for itself in a message. -/
def showsItself (c : Char) : Bool :=
  !inRanges joining c.toNat && !inRanges unprintable c.toNat

/-- A character by its code: lower case hexadecimal digits without
padding, in braces. -/
def codeEscape (c : Char) : String :=
  "\\u\x7b" ++ String.ofList (Nat.toDigits 16 c.toNat) ++ "\x7d"

/-- A character inside a quoted string, where only the double quote
has to be told from the end of the string. -/
def escapeInString (c : Char) : String :=
  match c with
  | '\x00' => "\\0"
  | '\t' => "\\t"
  | '\r' => "\\r"
  | '\n' => "\\n"
  | '\x5c' => "\\\\"
  | '\x22' => "\\\""
  | c => if showsItself c then c.toString else codeEscape c

/-- A character on its own, where the single quote takes a backslash
too. -/
def escapeChar (c : Char) : String :=
  if c = '\x27' then "\\'" else escapeInString c

/-- A string in double quotes, its characters escaped one by one. -/
def quoted (s : String) : String :=
  "\"" ++ String.join (s.toList.map escapeInString) ++ "\""

end TapeAsm.Text
