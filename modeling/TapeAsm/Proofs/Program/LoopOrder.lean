/-
The loops of a program in reading order. A loop is found by its address:
the places, from the outermost block inwards, that it and the loops
around it have among the parts of their blocks. So one loop is inside
another, or the same, if the other's address is a beginning of its own.
The loops of several programs are addressed with the place of the
program in front.
-/
import TapeAsm.Program.Basic

namespace TapeAsm

/-- A loop of a program: where it stands in it, and its body. -/
structure Loop where
  address : List Nat
  body : Program
deriving DecidableEq

/-- A loop as the block around sees it, where it belongs to part
`item`. -/
def Loop.under (item : Nat) (loop : Loop) : Loop :=
  { loop with address := item :: loop.address }

/-- The loop belongs to part `item` of a block or to a later one. -/
def Loop.IsFrom (item : Nat) (loop : Loop) : Prop :=
  ∃ place rest, loop.address = place :: rest ∧ item ≤ place

theorem Loop.isFrom_under (item : Nat) (loop : Loop) :
    (loop.under item).IsFrom item :=
  ⟨item, loop.address, rfl, Nat.le_refl item⟩

theorem Loop.IsFrom.of_succ {item : Nat} {loop : Loop}
    (h : loop.IsFrom (item + 1)) : loop.IsFrom item := by
  obtain ⟨place, rest, haddress, hle⟩ := h
  exact ⟨place, rest, haddress, Nat.le_of_succ_le hle⟩

/-- Loops of different parts are not inside each other. -/
theorem Loop.IsFrom.not_nested {item : Nat} {loop loop' : Loop}
    (h : loop.IsFrom item) (h' : loop'.IsFrom item)
    (hhead : loop.address.head? ≠ loop'.address.head?) :
    ¬ loop.address <+: loop'.address
      ∧ ¬ loop'.address <+: loop.address := by
  obtain ⟨place, rest, haddress, -⟩ := h
  obtain ⟨place', rest', haddress', -⟩ := h'
  rw [haddress, haddress', List.head?_cons, List.head?_cons,
    ne_eq, Option.some_inj] at hhead
  rw [haddress, haddress']
  constructor
  · exact fun hprefix => hhead (List.cons_prefix_cons.mp hprefix).1
  · exact fun hprefix => hhead (List.cons_prefix_cons.mp hprefix).1.symm

/-- No loop of a part is inside a loop of a later part, nor the other
way. -/
theorem Loop.IsFrom.apart {item : Nat} {later : Loop}
    (h : later.IsFrom (item + 1)) (loop : Loop) :
    ¬ (loop.under item).address <+: later.address
      ∧ ¬ later.address <+: (loop.under item).address := by
  refine (loop.isFrom_under item).not_nested h.of_succ ?_
  obtain ⟨place, rest, haddress, hle⟩ := h
  rw [haddress]
  simp [under]
  omega

namespace Program

/-- The loops of a block in reading order, at any depth, when `item`
parts of the block stand before. -/
def loopsFrom : Nat → Program → List Loop
  | _, done => []
  | item, run _ _ next => loopsFrom (item + 1) next
  | item, loop body next =>
    (⟨[], body⟩ :: loopsFrom 0 body).map (.under item)
      ++ loopsFrom (item + 1) next

/-- The addresses of the loops of a program begin at its first part. -/
theorem isFrom_of_mem_loopsFrom {item : Nat} {p : Program} {loop : Loop}
    (h : loop ∈ loopsFrom item p) : loop.IsFrom item := by
  induction p generalizing item with
  | done => cases h
  | run op count next ih => exact (ih h).of_succ
  | loop body next _ ih =>
      rcases List.mem_append.mp h with h | h
      · obtain ⟨inner, -, rfl⟩ := List.mem_map.mp h
        exact inner.isFrom_under item
      · exact (ih h).of_succ

/-- The loops of programs in reading order, when `item` programs stand
before. -/
def loopsOf : Nat → List Program → List Loop
  | _, [] => []
  | item, p :: ps =>
    (loopsFrom 0 p).map (.under item) ++ loopsOf (item + 1) ps

/-- There are as many addresses as loops. -/
@[simp] theorem length_loopsFrom (item : Nat) (p : Program) :
    (loopsFrom item p).length = p.loops := by
  induction p generalizing item with
  | done => rfl
  | run op count next ih => exact ih (item + 1)
  | loop body next ihBody ih =>
      rw [loopsFrom, List.length_append, List.length_map,
        List.length_cons, ihBody, ih, loops, Nat.add_comm 1]

/-- The addresses of the loops of several programs begin at the first of
them. -/
theorem isFrom_of_mem_loopsOf {item : Nat} {ps : List Program}
    {loop : Loop} (h : loop ∈ loopsOf item ps) : loop.IsFrom item := by
  induction ps generalizing item with
  | nil => cases h
  | cons p ps ih =>
      rcases List.mem_append.mp h with h | h
      · obtain ⟨inner, -, rfl⟩ := List.mem_map.mp h
        exact inner.isFrom_under item
      · exact (ih h).of_succ

end Program

end TapeAsm
