/-
The arguments of the command line. They are read from left to right,
and the first one that cannot be accepted ends the reading, so a request
for the version or for help counts only if all before it is in order.

An option that takes a value finds it behind an equals sign, directly
behind its letter, or in the next argument, which then must not look
like an option. Letters can share one dash; `--` ends the options.

These are the usual conventions of command lines. They stand here for
the sake of a whole program; no theorem is about them, and what is
proved of a run begins with its arguments as a record (`Arguments`).
-/
import TapeAsm.Asm.Listing
import TapeAsm.Program.Optimization

namespace TapeAsm.Cli

-- ========================================================== arguments

/-- What to print on the way. -/
inductive Command where
  | tokens
  | ast
  | asm
deriving DecidableEq

/-- The command with a given name. -/
def Command.ofName? : String → Option Command
  | "tokens" => some .tokens
  | "ast" => some .ast
  | "asm" => some .asm
  | _ => none

/-- What to compile, where to, and how. -/
structure Arguments where
  file : String
  output : String := "out.asm"
  commands : List Command := []
  optimizations : List Optimization := []
  allOptimizations : Bool := false
  tapeSize : Nat := ({} : Asm.Options).tapeSize
  noComments : Bool := false
deriving DecidableEq

namespace Arguments

/-- The optimizations that are asked for. -/
def wanted (a : Arguments) : List Optimization :=
  if a.allOptimizations then a.optimizations ++ Optimization.all
  else a.optimizations

/-- The choices about the assembly text. -/
def options (a : Arguments) : Asm.Options :=
  { tapeSize := a.tapeSize, comments := !a.noComments }

end Arguments

/-- What a command line asks for. -/
inductive Request where
  | compile (arguments : Arguments)
  | help
  | version
deriving DecidableEq

/-- Why a command line is refused. -/
inductive Refusal where
  | unknownOption (text : String)
  | missingValue (option : String)
  | unexpectedValue (option : String)
  | repeated (option : String)
  | invalidValue (option value : String)
  | missingFile
deriving DecidableEq

/-- The wording of a refusal. -/
def Refusal.message : Refusal → String
  | .unknownOption text => "unexpected argument " ++ text
  | .missingValue option => "a value is required for " ++ option
  | .unexpectedValue option => "no value can be given to " ++ option
  | .repeated option => option ++ " cannot be used more than once"
  | .invalidValue option value =>
    "invalid value " ++ value ++ " for " ++ option
  | .missingFile => "--file is required"

-- ============================================================ options

/-- An option, with a value or without. -/
inductive Switch where
  | file
  | output
  | optimization
  | tapeSize
  | allOptimizations
  | noComments
  | help
  | version
deriving DecidableEq

namespace Switch

/-- The option with a given letter. -/
def ofLetter? : Char → Option Switch
  | 'f' => some .file
  | 'o' => some .output
  | 'O' => some .optimization
  | 't' => some .tapeSize
  | 'a' => some .allOptimizations
  | 'h' => some .help
  | 'V' => some .version
  | _ => none

/-- The option with a given name. -/
def ofName? : String → Option Switch
  | "file" => some .file
  | "output" => some .output
  | "optimizations" => some .optimization
  | "tape-size" => some .tapeSize
  | "all-optimizations" => some .allOptimizations
  | "no-comments" => some .noComments
  | "help" => some .help
  | "version" => some .version
  | _ => none

/-- Whether an option takes a value. -/
def takesValue : Switch → Bool
  | file => true
  | output => true
  | optimization => true
  | tapeSize => true
  | allOptimizations => false
  | noComments => false
  | help => false
  | version => false

/-- An option as messages name it. -/
def text : Switch → String
  | file => "--file"
  | output => "--output"
  | optimization => "--optimizations"
  | tapeSize => "--tape-size"
  | allOptimizations => "--all-optimizations"
  | noComments => "--no-comments"
  | help => "--help"
  | version => "--version"

end Switch

/-- The largest tape that can be asked for. -/
def maxTapeSize : Nat := Nat.pow 2 64 - 1

/-- The number that digits spell, the first one highest. -/
def decimal (digits : List Char) : Nat :=
  digits.foldl (fun n d => 10 * n + (d.toNat - '0'.toNat)) 0

/-- The number that a text spells in decimal digits, a plus sign in
front allowed; nothing for a tape that is too large. -/
def tapeSize? (text : String) : Option Nat :=
  let digits :=
    match text.toList with
    | '+' :: digits => digits
    | digits => digits
  if digits ≠ [] ∧ digits.all Char.isDigit ∧ decimal digits ≤ maxTapeSize
  then some (decimal digits)
  else none

-- ============================================================ reading

/-- What ends the reading of a command line early. -/
inductive Halt where
  | refused (refusal : Refusal)
  | help
  | version

/-- What is known part of the way through a command line: the options
given so far, the one that still waits for its value, and whether the
options are over. -/
structure Draft where
  file : Option String := none
  output : Option String := none
  tapeSize : Option Nat := none
  commands : List Command := []
  optimizations : List Optimization := []
  allOptimizations : Bool := false
  noComments : Bool := false
  waiting : Option Switch := none
  optionsOver : Bool := false

namespace Draft

/-- Sets a path that must not be empty and not be set before. -/
def path (switch : Switch) (earlier : Option String) (value : String) :
    Except Halt (Option String) :=
  if earlier.isSome then .error (.refused (.repeated switch.text))
  else if value = "" then
    .error (.refused (.invalidValue switch.text value))
  else .ok (some value)

/-- Sets a flag that must not be set before. -/
def flag (switch : Switch) (earlier : Bool) : Except Halt Bool :=
  if earlier then .error (.refused (.repeated switch.text)) else .ok true

/-- Takes an option without a value. -/
def raise (d : Draft) (switch : Switch) : Except Halt Draft := do
  match switch with
  | .allOptimizations =>
    return { d with
      allOptimizations := ← flag switch d.allOptimizations }
  | .noComments =>
    return { d with noComments := ← flag switch d.noComments }
  | .help => throw .help
  | .version => throw .version
  | _ => return { d with waiting := some switch }

/-- Takes an option together with its value. -/
def give (d : Draft) (switch : Switch) (value : String) :
    Except Halt Draft := do
  match switch with
  | .file => return { d with file := ← path switch d.file value }
  | .output => return { d with output := ← path switch d.output value }
  | .optimization =>
    match Optimization.ofName value false with
    | .ok o => return { d with optimizations := d.optimizations ++ [o] }
    | .error _ => throw (.refused (.invalidValue switch.text value))
  | .tapeSize =>
    if d.tapeSize.isSome then
      throw (.refused (.repeated switch.text))
    match tapeSize? value with
    | some size => return { d with tapeSize := some size }
    | none => throw (.refused (.invalidValue switch.text value))
  | _ => throw (.refused (.unexpectedValue switch.text))

/-- Takes an argument that is no option: the name of a command. -/
def positional (d : Draft) (name : String) : Except Halt Draft :=
  match Command.ofName? name with
  | some command => .ok { d with commands := d.commands ++ [command] }
  | none => .error (.refused (.invalidValue "the command" name))

/-- Takes the letters behind a dash. What stands behind the letter of
an option with a value is that value, an equals sign in front apart. -/
def letters (d : Draft) : List Char → Except Halt Draft
  | [] => .ok d
  | c :: cs => do
    match Switch.ofLetter? c with
    | none => throw (.refused (.unknownOption ("-" ++ c.toString)))
    | some switch =>
      if switch.takesValue then
        match cs with
        | [] => d.raise switch
        | '=' :: value => d.give switch (String.ofList value)
        | value => d.give switch (String.ofList value)
      else letters (← d.raise switch) cs

/-- Takes the option name behind two dashes, and its value if there is
an equals sign. -/
def long (d : Draft) (text : List Char) : Except Halt Draft :=
  let name := String.ofList (text.takeWhile (· ≠ '='))
  match Switch.ofName? name, text.dropWhile (· ≠ '=') with
  | none, _ => .error (.refused (.unknownOption ("--" ++ name)))
  | some switch, [] => d.raise switch
  | some switch, _ :: value => d.give switch (String.ofList value)

/-- Takes the next argument. -/
def take (d : Draft) (argument : String) : Except Halt Draft :=
  match d.waiting, argument.toList with
  | some switch, '-' :: _ :: _ =>
    .error (.refused (.missingValue switch.text))
  | some switch, _ => { d with waiting := none }.give switch argument
  | none, cs =>
    if d.optionsOver then d.positional argument
    else
      match cs with
      | ['-', '-'] => .ok { d with optionsOver := true }
      | '-' :: '-' :: text => d.long text
      | '-' :: c :: cs => d.letters (c :: cs)
      | _ => d.positional argument

/-- The arguments that are known once the command line is over. -/
def finish (d : Draft) : Except Halt Arguments :=
  match d.waiting, d.file with
  | some switch, _ => .error (.refused (.missingValue switch.text))
  | none, none => .error (.refused .missingFile)
  | none, some file =>
    let standard : Arguments := { file }
    .ok
      { file
        output := d.output.getD standard.output
        commands := d.commands
        optimizations := d.optimizations
        allOptimizations := d.allOptimizations
        tapeSize := d.tapeSize.getD standard.tapeSize
        noComments := d.noComments }

end Draft

/-- What the arguments of a command line ask for. -/
def Request.ofArguments (arguments : List String) :
    Except Refusal Request :=
  match arguments.foldlM Draft.take {} >>= Draft.finish with
  | .ok arguments => .ok (.compile arguments)
  | .error .help => .ok .help
  | .error .version => .ok .version
  | .error (.refused refusal) => .error refusal

end TapeAsm.Cli
