/-
Colours on a terminal. Where they are off, a text stands for itself.
-/

namespace TapeAsm.Cli

/-- The ways to set a text off. -/
inductive Shade where
  | blue
  | green
  | red
  | dimmed
deriving DecidableEq

/-- The number of a shade in a terminal's colour command. -/
def Shade.code : Shade → String
  | .blue => "34"
  | .green => "32"
  | .red => "31"
  | .dimmed => "2"

/-- Whether a terminal shows colours. -/
structure Style where
  color : Bool
deriving DecidableEq

/-- The style that the environment asks for: `force` turns colours on
whatever the output is, `never` turns them off, and otherwise they are
shown on a terminal unless `wish` declines. The value `0` is a no. -/
def Style.ofEnvironment (force never wish : Option String)
    (terminal : Bool) : Style :=
  if force.any (· ≠ "0") then ⟨true⟩
  else if never.isSome then ⟨false⟩
  else ⟨wish.all (· ≠ "0") && terminal⟩

/-- A text between the command for a shade and the one that ends it. -/
def Style.paint (style : Style) (shade : Shade) (text : String) : String :=
  if style.color then
    "\x1b[" ++ shade.code ++ "m" ++ text ++ "\x1b[0m"
  else text

end TapeAsm.Cli
