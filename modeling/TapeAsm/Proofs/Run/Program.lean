/-
Running a program as a tree. A task is the part of a program that is
still to be done, with the state it starts from; a loop whose cell is
not blank puts its body in front of itself, so what is left is a program
again and no stack of loops is needed.

Runs of an operation are done at one go here. A program spelled out
operation by operation (`singly`) runs alike, if no run in it is empty
(`agrees_singly`): that is what the texts of programs are compared with,
which have no runs.
-/
import TapeAsm.Program.Basic
import TapeAsm.Proofs.Run.System
import TapeAsm.Proofs.Run.Tape

namespace TapeAsm

open StateTransition Relation

/-- A program that is still to be run, and the state before it. -/
structure Task where
  rest : Program
  state : State

namespace Program

-- ====================================================== the semantics

/-- One step of a run: a whole run of an operation, or the test of a
loop. -/
def step : Task → Option Task
  | ⟨.done, _⟩ => none
  | ⟨.run op count next, s⟩ => some ⟨next, op.perform count s⟩
  | ⟨.loop body next, s⟩ =>
    if s.cell = 0 then some ⟨next, s⟩
    else some ⟨body ++ .loop body next, s⟩

@[simp] theorem step_run (op : Op) (count : Nat) (next : Program)
    (s : State) :
    step ⟨.run op count next, s⟩ = some ⟨next, op.perform count s⟩ := rfl

/-- A loop is left where the cell is zero. -/
theorem step_loop_zero {s : State} (h : s.cell = 0)
    (body next : Program) :
    step ⟨.loop body next, s⟩ = some ⟨next, s⟩ := if_pos h

/-- Where it is not, the body comes before the loop again. -/
theorem step_loop_nonzero {s : State} (h : s.cell ≠ 0)
    (body next : Program) :
    step ⟨.loop body next, s⟩ = some ⟨body ++ .loop body next, s⟩ :=
  if_neg h

/-- A run stops only behind the end of the program. -/
theorem step_eq_none {t : Task} (h : step t = none) : t.rest = .done := by
  obtain ⟨rest, s⟩ := t
  cases rest with
  | done => rfl
  | run op count next => cases h
  | loop body next =>
      by_cases hcell : s.cell = 0
      · rw [step_loop_zero hcell] at h
        cases h
      · rw [step_loop_nonzero hcell] at h
        cases h

/-- What has happened at the console stays in its record. -/
theorem events_step {t t' : Task} (h : step t = some t') :
    t.state.console.events <+: t'.state.console.events := by
  obtain ⟨rest, s⟩ := t
  cases rest with
  | done => cases h
  | run op count next =>
      cases h
      exact op.events_perform count s
  | loop body next =>
      by_cases hcell : s.cell = 0
      · rw [step_loop_zero hcell] at h
        cases h
        exact List.prefix_refl _
      · rw [step_loop_nonzero hcell] at h
        cases h
        exact List.prefix_refl _

/-- Programs as a system. -/
def system : System Task Event where
  step := step
  record t := t.state.console.events
  record_step := events_step

-- =========================================================== counting

/-- Every run in the program is of at least one operation. -/
def Positive : Program → Prop
  | done => True
  | run _ count next => 0 < count ∧ next.Positive
  | loop body next => body.Positive ∧ next.Positive

theorem Positive.append {p q : Program} (hp : p.Positive)
    (hq : q.Positive) : (p ++ q).Positive := by
  induction p with
  | done => exact hq
  | run op count next ih => exact ⟨hp.1, ih hp.2⟩
  | loop body next _ ih => exact ⟨hp.1, ih hp.2⟩

/-- A step does not bring in an empty run. -/
theorem Positive.step {t t' : Task} (h : t.rest.Positive)
    (hstep : step t = some t') : t'.rest.Positive := by
  obtain ⟨rest, s⟩ := t
  cases rest with
  | done => cases hstep
  | run op count next =>
      cases hstep
      exact h.2
  | loop body next =>
      by_cases hcell : s.cell = 0
      · rw [step_loop_zero hcell] at hstep
        cases hstep
        exact h.2
      · rw [step_loop_nonzero hcell] at hstep
        cases hstep
        exact h.1.append h

-- ======================================================= cells in use

/-- Whether the next step reads, writes or tests the cell under the
head. -/
def usesCell : Program → Prop
  | done => False
  | run op _ _ => op ≠ .moveRight ∧ op ≠ .moveLeft
  | loop _ _ => True

/-- A run that has the head on a tape of so many cells whenever it uses
a cell. In between the head may be anywhere. -/
def StaysOn (size : Nat) (t : Task) : Prop :=
  ∀ t', Reaches step t t' → t'.rest.usesCell →
    0 ≤ t'.state.head ∧ t'.state.head < size

theorem StaysOn.here {size : Nat} {t : Task} (h : StaysOn size t)
    (huse : t.rest.usesCell) : 0 ≤ t.state.head ∧ t.state.head < size :=
  h t .refl huse

theorem StaysOn.step {size : Nat} {t t' : Task} (h : StaysOn size t)
    (hstep : step t = some t') : StaysOn size t' := by
  intro t'' hreach huse
  exact h t'' (.head hstep hreach) huse

/-- A run stays on the tape if it is there now and stays there from the
next step on. -/
theorem StaysOn.of_step {size : Nat} {t t' : Task}
    (hhere : t.rest.usesCell → 0 ≤ t.state.head ∧ t.state.head < size)
    (hstep : Program.step t = some t') (h : StaysOn size t') :
    StaysOn size t := by
  intro t'' hreach huse
  rcases hreach.cases_head with rfl | ⟨t₁, ht₁, hreach'⟩
  · exact hhere huse
  · rw [hstep] at ht₁
    cases ht₁
    exact h t'' hreach' huse

/-- A program that is over uses no cell. -/
theorem staysOn_done (size : Nat) (s : State) :
    StaysOn size ⟨done, s⟩ := by
  intro t hreach huse
  rcases hreach.cases_head with rfl | ⟨t₁, ht₁, -⟩
  · exact huse.elim
  · cases ht₁

-- ========================================================= one by one

/-- The program with each run spelled out as single operations. -/
def singly : Program → Program
  | done => done
  | run op count next => (run op 1)^[count] next.singly
  | loop body next => loop body.singly next.singly

@[simp] theorem iterate_run_append (op : Op) (count : Nat)
    (p q : Program) :
    (run op 1)^[count] p ++ q = (run op 1)^[count] (p ++ q) := by
  induction count generalizing p with
  | zero => rfl
  | succ count ih =>
      rw [Function.iterate_succ_apply, Function.iterate_succ_apply, ih]
      rfl

theorem singly_append (p q : Program) :
    (p ++ q).singly = p.singly ++ q.singly := by
  induction p with
  | done => rfl
  | run op count next ih =>
      rw [run_append, singly, ih, singly, iterate_run_append]
  | loop body next _ ih => rw [loop_append, singly, ih, singly, loop_append]

/-- The single operations of a run, one after the other, do what the run
does. -/
theorem reaches_iterate_run (op : Op) (count : Nat) (p : Program)
    (s : State) :
    Reaches step ⟨(run op 1)^[count] p, s⟩ ⟨p, op.perform count s⟩ := by
  induction count generalizing s with
  | zero =>
      rw [Op.perform_zero]
      exact .refl
  | succ count ih =>
      rw [Function.iterate_succ_apply', Op.perform_succ,
        ← Op.perform_one op s]
      exact .head (step_run ..) (ih _)

/-- A program and its single operations, at the same place. -/
private def Spelled (t t' : Task) : Prop :=
  t.rest.Positive ∧ t' = ⟨t.rest.singly, t.state⟩

/-- Spelling the runs out follows the program: a run is as many steps,
which is why it must not be empty. -/
private theorem simulation_singly :
    System.Simulation system system Spelled where
  record := by
    rintro a b ⟨-, rfl⟩
    rfl
  advance := by
    rintro ⟨rest, s⟩ b t' ⟨hpos, rfl⟩ hstep
    have hpos' := hpos.step hstep
    cases rest with
    | done => cases hstep
    | run op count next =>
        cases hstep
        obtain ⟨n, rfl⟩ := Nat.exists_eq_add_one.mpr hpos.1
        have hfirst : step ⟨(run op 1)^[n + 1] next.singly, s⟩
            = some ⟨(run op 1)^[n] next.singly, op.act s⟩ := by
          rw [Function.iterate_succ_apply', step_run, Op.perform_one]
        have hrest := reaches_iterate_run op n next.singly (op.act s)
        rw [← Op.perform_succ] at hrest
        exact ⟨_, ⟨hpos', rfl⟩, TransGen.head' hfirst hrest⟩
    | loop body next =>
        by_cases hcell : s.cell = 0
        · rw [show system.step = step from rfl, step_loop_zero hcell]
            at hstep
          cases hstep
          exact ⟨_, ⟨hpos', rfl⟩, .single (step_loop_zero hcell _ _)⟩
        · rw [show system.step = step from rfl, step_loop_nonzero hcell]
            at hstep
          cases hstep
          refine ⟨_, ⟨hpos', rfl⟩, .single ?_⟩
          show step ⟨loop body.singly next.singly, s⟩ = _
          rw [step_loop_nonzero hcell, singly_append, singly]
  finish := by
    rintro a b ⟨hpos, rfl⟩ hstop
    refine ⟨_, ⟨hpos, rfl⟩, .refl, ?_⟩
    rw [step_eq_none hstop]
    rfl

/-- A program without empty runs runs as its single operations do. -/
theorem agrees_singly {p : Program} (h : p.Positive) (s : State) :
    system.Agrees system (fun t t' => t.state = t'.state) ⟨p, s⟩
      ⟨p.singly, s⟩ :=
  simulation_singly.agrees (fun h _ _ => by rw [h.2]) ⟨h, rfl⟩

end Program

end TapeAsm
