/-
What can be wrong with a program text: only its brackets, or a token
list that stops before the end of the input.
-/
import TapeAsm.Source.Token

namespace TapeAsm

/-- Why a token list is not a program. -/
inductive SyntaxError where
  /-- A loop is still open where its block stops. -/
  | unclosedLoop (opened : Position) (found : TokenKind)
      (place : Position)
  /-- A closing bracket outside of any loop. -/
  | strayClose (place : Position)
  /-- The tokens run out, and none of them marks the end. -/
  | noEndMarker (tokens : Nat)
deriving DecidableEq

/-- The wording of a syntax error. -/
def SyntaxError.message : SyntaxError → String
  | .unclosedLoop opened found place =>
    "expected `]` to close the loop opened at " ++ opened.text
      ++ ", found " ++ found.text ++ " at " ++ place.text
  | .strayClose place => "unmatched `]` at " ++ place.text
  | .noEndMarker tokens =>
    "missing end of input marker after " ++ toString tokens ++ " tokens"

end TapeAsm
