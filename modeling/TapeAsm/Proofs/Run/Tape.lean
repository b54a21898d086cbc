/-
What a program works on: a tape of bytes that is endless in both
directions, the place of the head on it, and a console that hands out
values and takes bytes. The console keeps the order of everything that
goes through it, so the outputs and the inputs of a run are one
sequence.

An operation is done once (`Op.act`) or as a run, at one go
(`Op.perform`): the head moves by the length of the run, the cell
changes by it modulo 256, a run of writes is as many outputs of one
cell, and a run of reads keeps the last value only. The second is the
first as many times (`perform_eq_iterate`).
-/
import Mathlib.Data.Stream.Init
import Mathlib.Logic.Function.Iterate
import TapeAsm.Source.Token

namespace TapeAsm

-- ======================================================== the console

/-- What a cell of the tape holds. -/
abbrev Byte := BitVec 8

/-- What a read is answered with; a cell keeps its low byte. -/
abbrev Word := BitVec 32

/-- Something that goes through the console. -/
inductive Event where
  | output (value : Byte)
  | input (value : Word)
deriving DecidableEq

/-- The values that are still to be read, and the events so far, the
oldest first. -/
structure Console where
  pending : Stream' Word
  events : List Event

namespace Console

/-- A console at which nothing has happened yet. -/
def ofInput (input : Stream' Word) : Console := ⟨input, []⟩

/-- The console after a byte has been put out so many times. -/
def put (c : Console) (value : Byte) (count : Nat) : Console :=
  { c with events := c.events ++ List.replicate count (.output value) }

/-- The console after so many values have been read off it. -/
def take (c : Console) (count : Nat) : Console where
  pending := c.pending.drop count
  events := c.events ++ (c.pending.take count).map .input

@[simp] theorem put_zero (c : Console) (value : Byte) :
    c.put value 0 = c := by
  simp [put]

/-- The first of several writes is a write of its own. -/
theorem put_succ (c : Console) (value : Byte) (count : Nat) :
    c.put value (count + 1) = (c.put value 1).put value count := by
  simp [put, List.replicate_succ]

@[simp] theorem take_zero (c : Console) : c.take 0 = c := by
  simp [take]

/-- The first of several reads is a read of its own. -/
theorem take_succ (c : Console) (count : Nat) :
    c.take (count + 1) = (c.take 1).take count := by
  have hdrop : c.pending.drop (count + 1)
      = (c.pending.drop 1).drop count := by
    rw [Stream'.drop_drop, Nat.add_comm]
  simp [take, Stream'.take_succ, hdrop, Stream'.tail_eq_drop]

/-- A write adds to what has happened. -/
theorem events_put (c : Console) (value : Byte) (count : Nat) :
    c.events <+: (c.put value count).events :=
  List.prefix_append ..

/-- A read adds to what has happened. -/
theorem events_take (c : Console) (count : Nat) :
    c.events <+: (c.take count).events :=
  List.prefix_append ..

end Console

-- ========================================================== the state

/-- The tape with its head, and the console. -/
structure State where
  head : Int
  cells : Int → Byte
  console : Console

namespace State

/-- The state at the very start: the head on the first cell of a blank
tape. -/
def blank (input : Stream' Word) : State :=
  ⟨0, fun _ => 0, .ofInput input⟩

/-- The byte under the head. -/
def cell (s : State) : Byte := s.cells s.head

/-- The state with another byte under the head. -/
def setCell (s : State) (value : Byte) : State :=
  { s with cells := Function.update s.cells s.head value }

@[simp] theorem cell_setCell (s : State) (value : Byte) :
    (s.setCell value).cell = value := by
  simp [cell, setCell]

/-- Of two values for a cell the second one stays. -/
@[simp] theorem setCell_setCell (s : State) (v w : Byte) :
    (s.setCell v).setCell w = s.setCell w := by
  simp [setCell]

@[simp] theorem setCell_cell (s : State) : s.setCell s.cell = s := by
  simp [cell, setCell]

end State

-- ===================================================== the operations

namespace Op

/-- An operation done once. -/
def act (op : Op) (s : State) : State :=
  match op with
  | .moveRight => { s with head := s.head + 1 }
  | .moveLeft => { s with head := s.head - 1 }
  | .increment => s.setCell (s.cell + 1)
  | .decrement => s.setCell (s.cell - 1)
  | .write => { s with console := s.console.put s.cell 1 }
  | .read =>
    { s with console := s.console.take 1 }.setCell
      (s.console.pending.head.setWidth 8)

/-- A run of an operation, at one go. -/
def perform (op : Op) (count : Nat) (s : State) : State :=
  match op with
  | .moveRight => { s with head := s.head + count }
  | .moveLeft => { s with head := s.head - count }
  | .increment => s.setCell (s.cell + BitVec.ofNat 8 count)
  | .decrement => s.setCell (s.cell - BitVec.ofNat 8 count)
  | .write => { s with console := s.console.put s.cell count }
  | .read =>
    let after := { s with console := s.console.take count }
    match (s.console.pending.take count).getLast? with
    | none => after
    | some value => after.setCell (value.setWidth 8)

/-- The last of a run of values is the one it ends on. -/
private theorem getLast?_take (values : Stream' Word) (count : Nat) :
    (values.take (count + 1)).getLast? = some (values.get count) := by
  rw [← Stream'.concat_take_get, List.getLast?_concat]

/-- A run of reads keeps the value that it ends on. -/
theorem perform_read_succ (count : Nat) (s : State) :
    read.perform (count + 1) s
      = { s with console := s.console.take (count + 1) }.setCell
          ((s.console.pending.get count).setWidth 8) := by
  simp only [perform, getLast?_take]

theorem perform_zero (op : Op) (s : State) : op.perform 0 s = s := by
  cases op <;> simp [perform]

/-- A run is its first operation and then the rest of the run; for
reads, the first value is written over at once if another one
follows. -/
theorem perform_succ (op : Op) (count : Nat) (s : State) :
    op.perform (count + 1) s = op.perform count (op.act s) := by
  have hcount : BitVec.ofNat 8 (count + 1) = 1 + BitVec.ofNat 8 count := by
    rw [Nat.add_comm, BitVec.ofNat_add]
    rfl
  cases op with
  | moveRight =>
      simp only [perform, act, State.mk.injEq, and_self, and_true]
      omega
  | moveLeft =>
      simp only [perform, act, State.mk.injEq, and_self, and_true]
      omega
  | increment =>
      simp only [perform, act, State.cell_setCell, State.setCell_setCell]
      rw [hcount, BitVec.add_assoc]
  | decrement =>
      simp only [perform, act, State.cell_setCell, State.setCell_setCell]
      rw [hcount]
      congr 1
      generalize BitVec.ofNat 8 count = n
      bv_omega
  | write =>
      simp only [perform, act]
      rw [Console.put_succ]
      rfl
  | read =>
      cases count with
      | zero =>
          simp [perform, act, State.setCell, Stream'.take_succ]
      | succ count =>
          simp only [perform, act, getLast?_take, State.setCell]
          rw [Console.take_succ, Nat.add_comm count 1]
          simp [Console.take]

/-- A run of an operation is the operation as many times. -/
theorem perform_eq_iterate (op : Op) (count : Nat) (s : State) :
    op.perform count s = op.act^[count] s := by
  induction count generalizing s with
  | zero => exact perform_zero op s
  | succ count ih => rw [perform_succ, ih, Function.iterate_succ_apply]

/-- Nothing that has happened at the console is taken back. -/
theorem events_perform (op : Op) (count : Nat) (s : State) :
    s.console.events <+: (op.perform count s).console.events := by
  cases op with
  | moveRight => exact List.prefix_refl _
  | moveLeft => exact List.prefix_refl _
  | increment => exact List.prefix_refl _
  | decrement => exact List.prefix_refl _
  | write => exact Console.events_put ..
  | read =>
      simp only [perform]
      split
      · exact Console.events_take ..
      · exact Console.events_take ..

/-- An operation done once is a run of length one. -/
theorem perform_one (op : Op) (s : State) : op.perform 1 s = op.act s := by
  rw [perform_succ, perform_zero]

end Op

end TapeAsm
