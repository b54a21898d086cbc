/-
Dropping the loops that a program begins with. Where the cell under the
head is blank such a loop does not run, and the cell is as blank behind
it as before, so any number of leading loops can go, one after the
other. Every other part of the program stays as it is
(`items_iterate_dropLeadingLoop`), and what is left is a later stage of
the run of the whole program (`reaches_iterate_dropLeadingLoop`).
-/
import TapeAsm.Program.Optimization
import TapeAsm.Proofs.Run.Program

namespace TapeAsm.Program

open StateTransition Relation

-- ============================================================== items

/-- An instruction of a program: a run, or a whole loop. -/
inductive Item where
  | run (op : Op) (count : Nat)
  | loop (body : Program)
deriving DecidableEq

/-- Whether an instruction is a loop. -/
def Item.isLoop : Item → Bool
  | run .. => false
  | loop _ => true

/-- The instructions of a program, those inside its loops apart. -/
def items : Program → List Item
  | done => []
  | run op count next => .run op count :: next.items
  | loop body next => .loop body :: next.items

/-- The loops that a program begins with, up to its first run. -/
def leadingLoops (p : Program) : List Item :=
  p.items.takeWhile Item.isLoop

/-- Dropping so often takes as many instructions away as there are
leading loops, at most, and leaves the others alone. -/
theorem items_iterate_dropLeadingLoop (p : Program) (n : Nat) :
    (dropLeadingLoop^[n] p).items
      = p.items.drop (min n p.leadingLoops.length) := by
  induction n generalizing p with
  | zero => rw [Nat.zero_min, List.drop_zero]; rfl
  | succ n ih =>
      rw [Function.iterate_succ_apply, ih]
      cases p with
      | done => simp [dropLeadingLoop, items]
      | run op count next =>
          simp [dropLeadingLoop, leadingLoops, items, Item.isLoop]
      | loop body next =>
          have hcount : (loop body next).leadingLoops.length
              = next.leadingLoops.length + 1 := by
            rw [leadingLoops, items, List.takeWhile_cons_of_pos rfl,
              List.length_cons, leadingLoops]
          rw [hcount, Nat.succ_min_succ, items, List.drop_succ_cons]
          rfl

-- ============================================================ the run

/-- On a blank cell a leading loop is passed without a trace. -/
theorem reaches_dropLeadingLoop (p : Program) {s : State}
    (h : s.cell = 0) : Reaches step ⟨p, s⟩ ⟨p.dropLeadingLoop, s⟩ := by
  cases p with
  | done => exact .refl
  | run op count next => exact .refl
  | loop body next => exact .single (step_loop_zero h body next)

/-- On a blank cell all the leading loops are: the first one leaves the
cell blank for the next. -/
theorem reaches_iterate_dropLeadingLoop (p : Program) (n : Nat)
    {s : State} (h : s.cell = 0) :
    Reaches step ⟨p, s⟩ ⟨dropLeadingLoop^[n] p, s⟩ := by
  induction n generalizing p with
  | zero => exact .refl
  | succ n ih =>
      rw [Function.iterate_succ_apply]
      exact (reaches_dropLeadingLoop p h).trans (ih _)

/-- Dropping the leading loop `n` times removes exactly the first
instructions, as many as there are leading loops but no more than `n`;
on a blank cell the rest runs as the whole program does, to the same
end. Optimizing is to drop once, or not at all. -/
theorem iterate_dropLeadingLoop_sound (p : Program) (n : Nat) :
    (dropLeadingLoop^[n] p).items
        = p.items.drop (min n p.leadingLoops.length)
      ∧ (∀ s : State, s.cell = 0 →
        system.Agrees system (fun t t' => t.state = t'.state)
          ⟨dropLeadingLoop^[n] p, s⟩ ⟨p, s⟩)
      ∧ ∀ wanted : List Optimization, p.optimize wanted
        = dropLeadingLoop^[if .leadingLoop ∈ wanted then 1 else 0] p := by
  refine ⟨items_iterate_dropLeadingLoop p n, fun s hs => ?_, fun wanted => ?_⟩
  · have hreach := reaches_iterate_dropLeadingLoop p n hs
    have hagree := System.agrees_of_reaches (S := system) hreach
    exact hagree.symm.trans (System.agrees_of_reaches (S := system) .refl)
      fun _ _ _ hab hbc => by rw [← hab, hbc]
  · unfold optimize
    split
    · rfl
    · rfl

/-- Two leading loops, and a third one behind a run: dropping three
times takes the first two. -/
theorem iterate_dropLeadingLoop_sound_comments :
    let p := loop (loop done (run .write 2 done)) (loop done
      (run .increment 3 (loop (run .decrement 1 done) done)))
    let s := State.blank (Stream'.const 0)
    s.cell = 0
      ∧ (dropLeadingLoop^[3] p).items
        = [.run .increment 3, .loop (run .decrement 1 done)]
      ∧ system.Agrees system (fun t t' => t.state = t'.state)
        ⟨dropLeadingLoop^[3] p, s⟩ ⟨p, s⟩ := by
  intro p s
  obtain ⟨hitems, hruns, -⟩ := iterate_dropLeadingLoop_sound p 3
  exact ⟨rfl, hitems, hruns s rfl⟩

end TapeAsm.Program
