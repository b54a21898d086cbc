/-
Optimizations: changes to a program that leave its meaning alone. There
is one. A loop at the very start never runs, since the tape is blank
there, so it can only be a comment and is dropped.
-/
import TapeAsm.Program.Basic

namespace TapeAsm

/-- The optimizations that can be asked for. -/
inductive Optimization where
  /-- A loop at the very start of the program is dropped. -/
  | leadingLoop
deriving DecidableEq

/-- A name that no optimization has. -/
structure UnknownOptimization where
  name : String

/-- The wording for an unknown name. -/
def UnknownOptimization.message (e : UnknownOptimization) : String :=
  "invalid variant: " ++ e.name

namespace Optimization

/-- Every optimization there is. -/
def all : List Optimization := [.leadingLoop]

/-- No optimization is left out of the list of all of them. -/
theorem mem_all (o : Optimization) : o ∈ all := by
  cases o
  exact List.mem_singleton_self _

/-- The name by which an optimization is asked for. -/
def name : Optimization → String
  | .leadingLoop => "comment-block"

/-- The name by which an optimization is reported. -/
def title : Optimization → String
  | .leadingLoop => "CommentBlock"

/-- The optimization with a given name; on request the case of letters does
not count, and only the letters from a to z have one. -/
def ofName (name : String) (ignoreCase : Bool) :
    Except UnknownOptimization Optimization :=
  let key (s : String) : List Char :=
    if ignoreCase then s.toList.map Char.toLower else s.toList
  match all.find? fun o => key o.name = key name with
  | some o => .ok o
  | none => .error ⟨name⟩

end Optimization

/-- The program without the loop that it begins with, if there is
one. -/
def Program.dropLeadingLoop : Program → Program
  | .loop _ next => next
  | p => p

/-- The program after the optimizations that are asked for. -/
def Program.optimize (p : Program) (wanted : List Optimization) : Program :=
  if .leadingLoop ∈ wanted then p.dropLeadingLoop else p

end TapeAsm
