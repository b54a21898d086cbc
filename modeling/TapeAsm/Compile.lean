/-
From source text to assembly text.
-/
import TapeAsm.Asm.Listing
import TapeAsm.Files.Error
import TapeAsm.Program.Optimization
import TapeAsm.Program.Reading
import TapeAsm.Source.Scanner

namespace TapeAsm

/-- Why a source has not become an assembly text. -/
inductive CompileError where
  | malformed (cause : SyntaxError)
  | file (cause : FileError)
deriving DecidableEq

/-- The wording of a failure. -/
def CompileError.message : CompileError → String
  | .malformed cause => "Syntax Error: " ++ cause.message
  | .file cause => "IO Error: " ++ cause.message

/-- The lines of the assembly text for a source text. -/
def compile (source : String) (options : Asm.Options)
    (wanted : List Optimization) : Except CompileError (List String) :=
  match Program.ofTokens (Token.scan source) with
  | .error cause => .error (.malformed cause)
  | .ok p => .ok (Asm.Listing.ofProgram options (p.optimize wanted)).texts

end TapeAsm
