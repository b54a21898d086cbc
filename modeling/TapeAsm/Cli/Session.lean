/-
What a run of the command line says and does. Each stage of a
compilation gives a `Report`: what it prints, and its result or the
failure that ends the run. How long a stage took is left open in what
it prints, so a report is a plain value; whoever shows it fills the
time in.

A compilation is the same whatever carries it out, be it the real files
and the real clock or files that are a value: it is written once, for
any `Host` (`Session.compileBy`). An `Action` does its work on files
that are a value: it gives the files as they are afterwards, also when
it fails, next to its report. `Session.run` is a whole run on a
directory of files of that kind.
-/
import TapeAsm.Cli.Arguments
import TapeAsm.Cli.Style
import TapeAsm.Compile
import TapeAsm.Files.System
import TapeAsm.Program.Outline

namespace TapeAsm.Cli

-- ============================================================ reports

/-- A part of what is printed: a text, or the time that the present
stage has taken. -/
inductive Chunk where
  | text (value : String)
  | elapsed
deriving DecidableEq

/-- A part of what is printed, given the time. -/
def Chunk.fill (time : String) : Chunk → String
  | text value => value
  | elapsed => time

/-- What is printed, and the result or what went wrong. -/
structure Report (α : Type) where
  chunks : List Chunk
  result : Except CompileError α

namespace Report

/-- A report that has nothing to print. -/
protected def pure {α : Type} (a : α) : Report α := ⟨[], .ok a⟩

/-- One report and, if it has a result, the one that follows from
it. -/
protected def bind {α β : Type} (r : Report α) (f : α → Report β) :
    Report β :=
  match r.result with
  | .ok a => ⟨r.chunks ++ (f a).chunks, (f a).result⟩
  | .error e => ⟨r.chunks, .error e⟩

instance : Monad Report where
  pure := Report.pure
  bind := Report.bind

/-- Prints a text. -/
def say (text : String) : Report Unit := ⟨[.text text], .ok ()⟩

/-- Prints a text if asked to. -/
def sayIf (asked : Bool) (text : String) : Report Unit :=
  if asked then say text else .pure ()

/-- Prints a line that ends in the time. -/
def sayElapsed (text : String) : Report Unit :=
  ⟨[.text (text ++ " "), .elapsed, .text "\n"], .ok ()⟩

/-- Goes on with a result, or stops at a failure. -/
def require {α : Type} (result : Except CompileError α) : Report α :=
  ⟨[], result⟩

end Report

-- ============================================================== hosts

/-- What carries a compilation out: it works out what is said and gets
at the files. -/
structure Host (m : Type → Type) where
  /-- Works a stage out and shows its report. -/
  perform : {α : Type} → (Unit → Report α) → m α
  /-- Reads the text of a file. -/
  read : String → m String
  /-- Writes a text to a file. -/
  write : String → String → m Unit

-- ============================================================ actions

/-- Something done on files: from their state, their state afterwards and
the report. -/
structure Action (State α : Type) where
  run : State → State × Report α

namespace Action

variable {State α β : Type}

/-- What leaves the files alone. -/
def report (r : Report α) : Action State α := ⟨fun s => (s, r)⟩

/-- One action and, if it has a result, the one that follows from it. -/
protected def bind (act : Action State α) (f : α → Action State β) :
    Action State β where
  run s :=
    match act.run s with
    | (s, ⟨chunks, .ok a⟩) =>
      let (s, r) := (f a).run s
      (s, ⟨chunks ++ r.chunks, r.result⟩)
    | (s, ⟨chunks, .error e⟩) => (s, ⟨chunks, .error e⟩)

instance : Monad (Action State) where
  pure a := report (.pure a)
  bind := Action.bind

/-- Reads the text of a file. -/
def read (fs : FileSystem State) (path : String) : Action State String where
  run s := (s, Report.require ((fs.read s path).mapError .file))

/-- Writes a text to a file. -/
def write (fs : FileSystem State) (path text : String) :
    Action State Unit where
  run s :=
    match fs.write s path text with
    | .ok s => (s, .pure ())
    | .error e => (s, Report.require (.error (.file e)))

/-- The host on files that are a value. -/
def host (fs : FileSystem State) : Host (Action State) where
  perform stage := report (stage ())
  read := read fs
  write := write fs

end Action

-- ============================================================= tokens

/-- A token as the dump of tokens shows it: by the character that it
was made from, dimmed if it has no meaning. The end of the input ends
the line. -/
def dumpToken (style : Style) (kind : TokenKind) : String :=
  match kind with
  | .other c => style.paint .dimmed c.toString
  | .endOfInput => "\n"
  | .op o => o.symbol.toString
  | .loopOpen => "["
  | .loopClose => "]"

/-- The dump of tokens. -/
def dumpTokens (style : Style) (tokens : List Token) : String :=
  String.join (tokens.map fun token => dumpToken style token.kind)

-- ============================================================= stages

namespace Session

/-- From text to tokens. -/
def scan (style : Style) (a : Arguments) (source : String) :
    Report (List Token) := do
  Report.say (style.paint .blue "Starting lexing" ++ "\n")
  let tokens := Token.scan source
  Report.sayElapsed (style.paint .green "Finished lexing in")
  Report.sayIf (.tokens ∈ a.commands) (dumpTokens style tokens)
  return tokens

/-- From tokens to a program. -/
def read (style : Style) (a : Arguments) (tokens : List Token) :
    Report Program := do
  Report.say (style.paint .blue "Starting parsing" ++ "\n")
  let p ← Report.require ((Program.ofTokens tokens).mapError .malformed)
  Report.sayElapsed (style.paint .green "Finished parsing in")
  Report.sayIf (.ast ∈ a.commands) (Outline.pretty p ++ "\n")
  return p

/-- The optimizations that are asked for, as a set. -/
def wantedText (wanted : List Optimization) : String :=
  let titles := (Optimization.all.filter (· ∈ wanted)).map (·.title)
  "\x7b" ++ ", ".intercalate titles ++ "\x7d"

/-- From a program to the one to compile. -/
def optimize (style : Style) (a : Arguments) (p : Program) :
    Report Program := do
  Report.say (style.paint .blue "Starting optimizations" ++ " "
    ++ wantedText a.wanted ++ "\n")
  let q := p.optimize a.wanted
  Report.sayElapsed (style.paint .green "Finished optimizations" ++ " in")
  return q

/-- From a program to its assembly text, without a line feed at the
end. -/
def assemble (style : Style) (a : Arguments) (p : Program) :
    Report String := do
  Report.say (style.paint .blue "Starting codegen" ++ "\n")
  let lines := (Asm.Listing.ofProgram a.options p).texts
  Report.sayElapsed (style.paint .green "Finished codegen with" ++ " "
    ++ toString lines.length ++ " lines in")
  let assembly := "\n".intercalate lines
  Report.sayIf (.asm ∈ a.commands) (assembly ++ "\n")
  return assembly

/-- What is printed before the file is read. -/
def opening (a : Arguments) : Report Unit :=
  Report.say ("Compiling " ++ a.file ++ "\n")

/-- What is printed once the assembly text is written. -/
def closing (style : Style) (a : Arguments) : Report Unit :=
  Report.say (style.paint .green "Wrote" ++ " " ++ a.output ++ "\n")

/-- What is printed about a failure. -/
def failure (style : Style) (e : CompileError) : String :=
  style.paint .red "Error" ++ ": " ++ e.message ++ "\n"

/-- A compilation from file to file. -/
def compileBy {m : Type → Type} [Monad m] (host : Host m) (style : Style)
    (a : Arguments) : m Unit := do
  host.perform fun _ => opening a
  let source ← host.read a.file
  let tokens ← host.perform fun _ => scan style a source
  let p ← host.perform fun _ => read style a tokens
  let q ← host.perform fun _ => optimize style a p
  let assembly ← host.perform fun _ => assemble style a q
  host.write a.output assembly
  host.perform fun _ => closing style a

/-- The exit code at the end of a compilation, and what is printed about
it. -/
def ending (style : Style) : Except CompileError Unit → Nat × String
  | .ok () => (0, "")
  | .error e => (1, failure style e)

/-- A compilation on files that are a value. -/
def compileFile {State : Type} (fs : FileSystem State) (style : Style)
    (a : Arguments) : Action State Unit :=
  compileBy (Action.host fs) style a

/-- Everything that a run leaves behind. -/
structure Outcome (State : Type) where
  exitCode : Nat
  output : List Chunk
  errors : String
  volume : State

/-- A run with the given arguments. -/
def settle {State : Type} (fs : FileSystem State) (style : Style)
    (a : Arguments) (s : State) : Outcome State :=
  let (s, report) := (compileFile fs style a).run s
  let (exitCode, errors) := ending style report.result
  ⟨exitCode, report.chunks, errors, s⟩

/-- The name and number of this program. -/
def version : String := "bfasm 0.1.0\n"

/-- How to call this program. -/
def usage : String :=
  "Usage: bfasm [OPTIONS] --file <FILE> [COMMANDS]...\n\n"
    ++ "Commands: tokens, ast, asm (what to print on the way)\n\n"
    ++ "Options:\n"
    ++ "  -f, --file <FILE>                    the file to compile\n"
    ++ "  -o, --output <OUTPUT>                where to write [out.asm]\n"
    ++ "  -O, --optimizations <OPTIMIZATIONS>  comment-block\n"
    ++ "  -a, --all-optimizations              every optimization\n"
    ++ "  -t, --tape-size <TAPE_SIZE>          number of cells [100000]\n"
    ++ "      --no-comments                    no source symbols\n"
    ++ "  -h, --help                           this text\n"
    ++ "  -V, --version                        the version\n"

/-- A run of the command line on a directory of files. -/
def run (style : Style) (arguments : List String) (v : Volume) :
    Outcome Volume :=
  match Request.ofArguments arguments with
  | .error refusal => ⟨2, [], "error: " ++ refusal.message ++ "\n", v⟩
  | .ok .help => ⟨0, [.text usage], "", v⟩
  | .ok .version => ⟨0, [.text version], "", v⟩
  | .ok (.compile a) => settle Volume.fileSystem style a v

end Session

end TapeAsm.Cli
