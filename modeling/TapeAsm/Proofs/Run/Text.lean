/-
Running a program as a text, character by character, with nothing in
hand but the text itself. The place of the run is between two
characters. A bracket that jumps looks for its partner by counting: to
the right from an opening bracket (`seekClose`), to the left from a
closing one (`seekOpen`). Everything that is neither an operation nor a
bracket is passed over.
-/
import TapeAsm.Proofs.Run.System
import TapeAsm.Proofs.Run.Tape

namespace TapeAsm

/-- A place in a text that is being run: the characters behind it, the
nearest first, the characters ahead, and the state. -/
structure Walk where
  behind : List Char
  ahead : List Char
  state : State

namespace Walk

-- =========================================================== brackets

/-- Goes right to behind the closing bracket that is the partner of one
opened before, over `depth` loops that were entered on the way. -/
def seekClose (depth : Nat) (behind : List Char) :
    List Char → Option (List Char × List Char)
  | [] => none
  | '[' :: ahead => seekClose (depth + 1) ('[' :: behind) ahead
  | ']' :: ahead =>
    match depth with
    | 0 => some (']' :: behind, ahead)
    | depth + 1 => seekClose depth (']' :: behind) ahead
  | c :: ahead => seekClose depth (c :: behind) ahead

/-- Goes left to before the opening bracket that is the partner of one
that closes ahead, over `depth` loops that were entered on the way. -/
def seekOpen (depth : Nat) :
    List Char → List Char → Option (List Char × List Char)
  | [], _ => none
  | ']' :: behind, ahead => seekOpen (depth + 1) behind (']' :: ahead)
  | '[' :: behind, ahead =>
    match depth with
    | 0 => some (behind, '[' :: ahead)
    | depth + 1 => seekOpen depth behind ('[' :: ahead)
  | c :: behind, ahead => seekOpen depth behind (c :: ahead)

-- ====================================================== the semantics

/-- What a character that is no bracket does. -/
def actChar (c : Char) (s : State) : State :=
  match c with
  | '>' => Op.moveRight.act s
  | '<' => Op.moveLeft.act s
  | '+' => Op.increment.act s
  | '-' => Op.decrement.act s
  | '.' => Op.write.act s
  | ',' => Op.read.act s
  | _ => s

/-- One step of a run: over the next character, or to behind or before
the partner of a bracket. -/
def step : Walk → Option Walk
  | ⟨_, [], _⟩ => none
  | ⟨behind, '[' :: ahead, s⟩ =>
    if s.cell = 0 then
      (seekClose 0 ('[' :: behind) ahead).map fun (b, a) => ⟨b, a, s⟩
    else some ⟨'[' :: behind, ahead, s⟩
  | ⟨behind, ']' :: ahead, s⟩ =>
    if s.cell = 0 then some ⟨']' :: behind, ahead, s⟩
    else (seekOpen 0 behind (']' :: ahead)).map fun (b, a) => ⟨b, a, s⟩
  | ⟨behind, c :: ahead, s⟩ => some ⟨c :: behind, ahead, actChar c s⟩

/-- What has happened at the console stays in its record. -/
theorem events_step {w w' : Walk} (h : step w = some w') :
    w.state.console.events <+: w'.state.console.events := by
  have hact : ∀ (op : Op) (s : State),
      s.console.events <+: (op.act s).console.events := fun op s => by
    rw [← Op.perform_one]
    exact op.events_perform 1 s
  unfold step at h
  split at h
  · cases h
  · split at h
    · obtain ⟨_, -, rfl⟩ := Option.map_eq_some_iff.mp h
      exact List.prefix_refl _
    · cases h
      exact List.prefix_refl _
  · split at h
    · cases h
      exact List.prefix_refl _
    · obtain ⟨_, -, rfl⟩ := Option.map_eq_some_iff.mp h
      exact List.prefix_refl _
  · cases h
    show _ <+: (actChar _ _).console.events
    unfold actChar
    split
    · exact hact .moveRight _
    · exact hact .moveLeft _
    · exact hact .increment _
    · exact hact .decrement _
    · exact hact .write _
    · exact hact .read _
    · exact List.prefix_refl _

/-- Texts as a system. -/
def system : System Walk Event where
  step := step
  record w := w.state.console.events
  record_step := events_step

end Walk

end TapeAsm
