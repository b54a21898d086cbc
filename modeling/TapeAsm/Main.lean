/-
The command line on the real files and the real clock. What is said and
decided is in `Session`; here is the host that carries it out.
-/
import TapeAsm.Cli.Duration
import TapeAsm.Cli.Session

namespace TapeAsm.Cli

/-- The failure that the system reports, by its number where two
failures are of one kind. Some calls report the negated number. -/
def fileErrorOf : IO.Error → FileError
  | .noFileOrDirectory .. => .notFound
  | .permissionDenied .. => .other "Permission denied (os error 13)"
  | .inappropriateType _ code details =>
    if code = 20 || code = 0 - 20 then .notDirectory
    else if code = 21 || code = 0 - 21 then .isDirectory
    else .other details
  | .invalidArgument _ code details =>
    if code = 36 || code = 0 - 36 then .nameTooLong else .other details
  | e => .other (toString e)

/-- Carries an action on a file out. -/
def attempt {α : Type} (act : IO α) : ExceptT CompileError IO α := do
  match ← act.toBaseIO with
  | .ok a => return a
  | .error e => throw (.file (fileErrorOf e))

/-- Works a stage out and prints its report, with the time that it
took. -/
def perform {α : Type} (stage : Unit → Report α) :
    ExceptT CompileError IO α := do
  let before ← IO.monoNanosNow
  let report : Report α ← (IO.lazyPure stage : IO (Report α))
  let after ← IO.monoNanosNow
  for chunk in report.chunks do
    IO.print (chunk.fill (durationText (after - before)))
  MonadExcept.ofExcept report.result

/-- The host on the real files. -/
def systemHost : Host (ExceptT CompileError IO) where
  perform := perform
  read path := do
    let bytes ← attempt (IO.FS.readBinFile path)
    MonadExcept.ofExcept ((Content.ofBytes bytes).toText.mapError .file)
  write path text := attempt (IO.FS.writeFile path text)

end TapeAsm.Cli

open TapeAsm TapeAsm.Cli in
/-- Runs the command line. -/
def main (arguments : List String) : IO UInt32 := do
  let style := Style.ofEnvironment (← IO.getEnv "CLICOLOR_FORCE")
    (← IO.getEnv "NO_COLOR") (← IO.getEnv "CLICOLOR")
    (← (← IO.getStdout).isTty)
  match Request.ofArguments arguments with
  | .error refusal =>
    IO.eprint ("error: " ++ refusal.message ++ "\n")
    return 2
  | .ok .help =>
    IO.print Session.usage
    return 0
  | .ok .version =>
    IO.print Session.version
    return 0
  | .ok (.compile a) =>
    let result ← (Session.compileBy systemHost style a).run
    let (exitCode, errors) := Session.ending style result
    IO.eprint errors
    return exitCode.toUInt32
