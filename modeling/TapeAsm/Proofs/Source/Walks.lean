/-
Walking over a text does what its program does. The invariant is
`Stands`: the characters ahead, up to the end of the innermost loop
around, spell the first part of the program that is left, and what is
left behind that part is the loop once more and what follows it. The
characters behind are known back to where that loop opens, so that the
search for the partner of a bracket, in either direction, ends where the
tree says it does (`seekClose_spells`, `seekOpen_spells`).

What stands next is idle, or one of four things (`Faces`): the end of
the text, an operation, a loop that opens, or the end of a loop. Idle
characters are passed (`Stands.faces`), and each of the four is one step
of the program without runs (`simulation`). Runs come back in at the
end, by way of `Program.agrees_singly`.
-/
import TapeAsm.Proofs.Run.Text
import TapeAsm.Proofs.Source.Reading

namespace TapeAsm.Walk

open StateTransition Relation

-- ========================================================== the steps

@[simp] theorem actChar_symbol (op : Op) (s : State) :
    actChar op.symbol s = op.act s := by
  cases op <;> rfl

theorem actChar_idle {c : Char} (hc : Idle c) (s : State) :
    actChar c s = s := by
  unfold actChar
  split
  · exact absurd rfl (hc.ne_symbol .moveRight)
  · exact absurd rfl (hc.ne_symbol .moveLeft)
  · exact absurd rfl (hc.ne_symbol .increment)
  · exact absurd rfl (hc.ne_symbol .decrement)
  · exact absurd rfl (hc.ne_symbol .write)
  · exact absurd rfl (hc.ne_symbol .read)
  · rfl

/-- A character that is no bracket is passed. -/
theorem step_of_ne {c : Char} (hopen : c ≠ '[') (hclose : c ≠ ']')
    (behind ahead : List Char) (s : State) :
    step ⟨behind, c :: ahead, s⟩
      = some ⟨c :: behind, ahead, actChar c s⟩ := by
  unfold step
  split
  · next h => cases h
  · next h => cases h; exact absurd rfl hopen
  · next h => cases h; exact absurd rfl hclose
  · next h => cases h; rfl

theorem step_symbol (op : Op) (behind ahead : List Char) (s : State) :
    step ⟨behind, op.symbol :: ahead, s⟩
      = some ⟨op.symbol :: behind, ahead, op.act s⟩ := by
  rw [step_of_ne (by cases op <;> decide) (by cases op <;> decide),
    actChar_symbol]

theorem step_idle {c : Char} (hc : Idle c) (behind ahead : List Char)
    (s : State) :
    step ⟨behind, c :: ahead, s⟩ = some ⟨c :: behind, ahead, s⟩ := by
  rw [step_of_ne hc.ne_open hc.ne_close, actChar_idle hc]

-- ======================================================= the partners

theorem seekClose_of_ne {c : Char} (hopen : c ≠ '[') (hclose : c ≠ ']')
    (depth : Nat) (behind ahead : List Char) :
    seekClose depth behind (c :: ahead)
      = seekClose depth (c :: behind) ahead := by
  rw [seekClose]
  · exact hopen
  · exact hclose

theorem seekOpen_of_ne {c : Char} (hopen : c ≠ '[') (hclose : c ≠ ']')
    (depth : Nat) (behind ahead : List Char) :
    seekOpen depth (c :: behind) ahead
      = seekOpen depth behind (c :: ahead) := by
  rw [seekOpen]
  · exact hclose
  · exact hopen

/-- A text that spells something has no partner for a bracket before
it. -/
theorem seekClose_spells {cs : List Char} {p : Program}
    (h : Spells cs p) (depth : Nat) (behind ahead : List Char) :
    seekClose depth behind (cs ++ ahead)
      = seekClose depth (cs.reverse ++ behind) ahead := by
  induction h generalizing depth behind ahead with
  | done => rfl
  | idle hc _ ih =>
      rw [List.cons_append, seekClose_of_ne hc.ne_open hc.ne_close, ih]
      simp
  | op op _ ih =>
      rw [List.cons_append,
        seekClose_of_ne (by cases op <;> decide) (by cases op <;> decide),
        ih]
      simp
  | loop _ _ ihBody ih =>
      rw [List.cons_append, List.append_assoc, seekClose, ihBody,
        List.cons_append, seekClose, ih]
      simp

/-- A text that spells something has no partner for a bracket behind
it. -/
theorem seekOpen_spells {cs : List Char} {p : Program}
    (h : Spells cs p) (depth : Nat) (behind ahead : List Char) :
    seekOpen depth (cs.reverse ++ behind) ahead
      = seekOpen depth behind (cs ++ ahead) := by
  induction h generalizing depth behind ahead with
  | done => rfl
  | idle hc _ ih =>
      rw [List.reverse_cons, List.append_assoc, ih, List.singleton_append,
        seekOpen_of_ne hc.ne_open hc.ne_close]
      rfl
  | op op _ ih =>
      rw [List.reverse_cons, List.append_assoc, ih, List.singleton_append,
        seekOpen_of_ne (by cases op <;> decide) (by cases op <;> decide)]
      rfl
  | @loop inner cs body p _ _ ihBody ih =>
      have hreverse : ('[' :: (inner ++ ']' :: cs)).reverse ++ behind
          = cs.reverse ++ ']' :: (inner.reverse ++ '[' :: behind) := by
        simp
      rw [hreverse, ih, seekOpen, ihBody, seekOpen]
      simp

/-- From a bracket that opens on a blank cell, the run goes on behind
the loop. -/
theorem step_skip {inner : List Char} {body : Program}
    (h : Spells inner body) (behind rest : List Char) {s : State}
    (hs : s.cell = 0) :
    step ⟨behind, '[' :: (inner ++ ']' :: rest), s⟩
      = some ⟨']' :: (inner.reverse ++ '[' :: behind), rest, s⟩ := by
  rw [step, if_pos hs, seekClose_spells h, seekClose]
  rfl

/-- From a bracket that closes on a cell that is not blank, the run goes
back to before the loop. -/
theorem step_back {inner : List Char} {body : Program}
    (h : Spells inner body) (before post : List Char) {s : State}
    (hs : s.cell ≠ 0) :
    step ⟨inner.reverse ++ '[' :: before, ']' :: post, s⟩
      = some ⟨before, '[' :: (inner ++ ']' :: post), s⟩ := by
  rw [step, if_neg hs, seekOpen_spells h, seekOpen]
  rfl

-- ====================================================== the invariant

/-- The run stands at a place from which the text does what the program
does: at the end of it, or in a loop, where what spells the rest of the
body is followed by the loop again. -/
inductive Stands : List Char → List Char → Program → Prop where
  | outermost (behind : List Char) {ahead : List Char} {p : Program}
    (h : Spells ahead p) : Stands behind ahead p
  | within {before past todo post : List Char} {body p next : Program}
    (hbody : Spells (past ++ todo) body) (h : Spells todo p)
    (hnext : Stands (']' :: ((past ++ todo).reverse ++ '[' :: before))
      post next) :
    Stands (past.reverse ++ '[' :: before) (todo ++ ']' :: post)
      (p ++ .loop body next)

/-- What a run can stand before, the idle characters apart. -/
inductive Faces : List Char → List Char → Program → Prop where
  | finish (behind : List Char) : Faces behind [] .done
  | op (op : Op) {behind rest : List Char} {p : Program}
    (h : Stands (op.symbol :: behind) rest p) :
    Faces behind (op.symbol :: rest) (.run op 1 p)
  | enter {behind inner rest : List Char} {body p : Program}
    (hbody : Spells inner body)
    (h : Stands (']' :: (inner.reverse ++ '[' :: behind)) rest p) :
    Faces behind ('[' :: (inner ++ ']' :: rest)) (.loop body p)
  | back {before inner post : List Char} {body next : Program}
    (hbody : Spells inner body)
    (h : Stands (']' :: (inner.reverse ++ '[' :: before)) post next) :
    Faces (inner.reverse ++ '[' :: before) (']' :: post)
      (.loop body next)

/-- Over the idle characters that come first, to what is meant. The text
ahead is a stretch `todo` that spells `p` and a `tail` behind it; the
run stands also at every later place of the stretch (`hlater`), and at
its end it faces what it faces there (`hend`). -/
private theorem faces_of_spells {todo tail : List Char} {p q : Program}
    (htodo : Spells todo p) {behind : List Char} (s : State)
    (hlater : ∀ pre post p', todo = pre ++ post → Spells post p' →
      Stands (pre.reverse ++ behind) (post ++ tail) (p' ++ q))
    (hend : Faces (todo.reverse ++ behind) tail q) :
    ∃ behind' ahead', Reaches step ⟨behind, todo ++ tail, s⟩
      ⟨behind', ahead', s⟩ ∧ Faces behind' ahead' (p ++ q) := by
  induction htodo generalizing behind with
  | done => exact ⟨_, _, .refl, hend⟩
  | @idle c cs p hc h ih =>
      obtain ⟨behind', ahead', hreach, hfaces⟩ := by
        refine @ih (c :: behind) (fun pre post p' hsplit hp' => ?_) ?_
        · have hstands := hlater (c :: pre) post p' (by rw [hsplit]; rfl) hp'
          simpa using hstands
        · simpa using hend
      exact ⟨behind', ahead', .head (step_idle hc ..) hreach, hfaces⟩
  | @op op cs p h ih =>
      have hstands := hlater [op.symbol] cs p rfl h
      have hfaces : Faces behind (op.symbol :: (cs ++ tail))
          (.run op 1 (p ++ q)) := .op op hstands
      exact ⟨_, _, .refl, hfaces⟩
  | @loop inner cs body p hbody h ih =>
      have hstands := hlater ('[' :: (inner ++ [']'])) cs p (by simp) h
      have hfaces : Faces behind ('[' :: (inner ++ ']' :: (cs ++ tail)))
          (.loop body (p ++ q)) := .enter hbody (by simpa using hstands)
      refine ⟨_, _, .refl, ?_⟩
      rw [List.cons_append, List.append_assoc]
      exact hfaces

/-- Where a run stands, it gets to one of the four things next. -/
theorem Stands.faces {behind ahead : List Char} {p : Program}
    (h : Stands behind ahead p) (s : State) :
    ∃ behind' ahead', Reaches step ⟨behind, ahead, s⟩
      ⟨behind', ahead', s⟩ ∧ Faces behind' ahead' p := by
  cases h with
  | outermost behind h =>
      have hlater : ∀ pre post p', ahead = pre ++ post → Spells post p' →
          Stands (pre.reverse ++ behind) (post ++ []) (p' ++ .done) := by
        intro pre post p' _ hp'
        rw [List.append_nil, Program.append_done]
        exact .outermost _ hp'
      simpa using faces_of_spells h s hlater (.finish _)
  | @within before past todo post body p next hbody h hnext =>
      refine faces_of_spells h s (fun pre post' p' hsplit hp' => ?_) ?_
      · subst hsplit
        rw [← List.append_assoc, ← List.reverse_append]
        refine .within ?_ hp' ?_
        · rwa [List.append_assoc]
        · rwa [List.append_assoc]
      · rw [← List.append_assoc, ← List.reverse_append]
        exact .back hbody hnext

/-- A run that has entered a loop stands before its whole body. -/
theorem Stands.entered {before inner post : List Char}
    {body next : Program} (hbody : Spells inner body)
    (hnext : Stands (']' :: (inner.reverse ++ '[' :: before)) post next) :
    Stands ('[' :: before) (inner ++ ']' :: post)
      (body ++ .loop body next) := by
  have hpast : Stands ([].reverse ++ '[' :: before)
      (inner ++ ']' :: post) (body ++ .loop body next) :=
    .within hbody hbody hnext
  exact hpast

-- ===================================================== the simulation

/-- A program without runs and a text that is being run, in the same
state. -/
private def Follows (t : Task) (w : Walk) : Prop :=
  Stands w.behind w.ahead t.rest ∧ w.state = t.state

/-- Every step of a program without runs is a walk over idle characters
and one or two steps of its text: one over an operation or into or out
of a loop, and two where the body of a loop is at its end and begins
anew. -/
private theorem simulation :
    System.Simulation Program.system system Follows where
  record := by
    rintro t w ⟨-, hstate⟩
    show t.state.console.events = w.state.console.events
    rw [hstate]
  advance := by
    rintro ⟨rest, s⟩ ⟨behind, ahead, s'⟩ t' ⟨hstands, hstate⟩ hstep
    obtain rfl : s' = s := hstate
    obtain ⟨behind', ahead', hreach, hfaces⟩ := hstands.faces s'
    cases hfaces with
    | finish => cases hstep
    | op op h =>
        cases hstep
        refine ⟨_, ⟨h, ?_⟩, .tail' hreach (step_symbol op ..)⟩
        exact (Op.perform_one op s').symm
    | @enter _ inner post body p hbody h =>
        by_cases hs : s'.cell = 0
        · have hstep' := hstep.symm.trans (Program.step_loop_zero hs body p)
          cases hstep'
          exact ⟨_, ⟨h, rfl⟩, .tail' hreach (step_skip hbody _ _ hs)⟩
        · have hstep' :=
            hstep.symm.trans (Program.step_loop_nonzero hs body p)
          cases hstep'
          refine ⟨⟨'[' :: behind', inner ++ ']' :: post, s'⟩, ⟨?_, rfl⟩,
            .tail' hreach ?_⟩
          · exact .entered hbody h
          · exact if_neg hs
    | @back before inner post body next hbody h =>
        by_cases hs : s'.cell = 0
        · have hstep' :=
            hstep.symm.trans (Program.step_loop_zero hs body next)
          cases hstep'
          exact ⟨_, ⟨h, rfl⟩, .tail' hreach (if_pos hs)⟩
        · have hstep' :=
            hstep.symm.trans (Program.step_loop_nonzero hs body next)
          cases hstep'
          refine ⟨⟨'[' :: before, inner ++ ']' :: post, s'⟩, ⟨?_, rfl⟩,
            .tail (.tail' hreach (step_back hbody _ _ hs)) ?_⟩
          · exact .entered hbody h
          · exact if_neg hs
  finish := by
    rintro ⟨rest, s⟩ ⟨behind, ahead, s'⟩ ⟨hstands, hstate⟩ hstop
    obtain rfl : s' = s := hstate
    obtain ⟨behind', ahead', hreach, hfaces⟩ := hstands.faces s'
    have hrest : rest = .done := Program.step_eq_none hstop
    subst hrest
    cases hfaces with
    | finish => exact ⟨_, ⟨.outermost _ .done, rfl⟩, hreach, rfl⟩

/-- A text whose tokens spell a program runs as the program does, from
any state: the same outputs and inputs in the same order, and an end in
the same state or no end at all. -/
theorem agrees_of_scan {source : String} {p : Program}
    (h : Program.ofTokens (Token.scan source) = .ok p) (s : State) :
    system.Agrees Program.system (fun w t => w.state = t.state)
      ⟨[], source.toList, s⟩ ⟨p, s⟩ := by
  have hsingly := Program.agrees_singly (Program.positive_of_ofTokens h) s
  have htext : Program.system.Agrees system
      (fun t w => w.state = t.state) ⟨p.singly, s⟩
      ⟨[], source.toList, s⟩ :=
    simulation.agrees (fun h _ _ => h.2)
      ⟨.outermost [] (Program.spells_of_scan h), rfl⟩
  refine (hsingly.trans htext ?_).symm
  intro t t' w hab hbc
  exact hbc.trans hab.symm

/-- A blank inside a run does not show in the program, a comment inside
a run does, and neither shows in what is done. -/
theorem agrees_of_scan_comment :
    let source := "+ +,x,[.-]"
    let p := Program.run .increment 2 (.run .read 1 (.run .read 1
      (.loop (.run .write 1 (.run .decrement 1 .done)) .done)))
    let s := State.blank (Stream'.const 7)
    Program.ofTokens (Token.scan source) = .ok p
      ∧ system.Agrees Program.system (fun w t => w.state = t.state)
        ⟨[], source.toList, s⟩ ⟨p, s⟩ :=
  ⟨by rfl, agrees_of_scan (by rfl) _⟩

end TapeAsm.Walk
