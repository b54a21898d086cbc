/-
Runs as they look from outside. A system takes one step after the other
and keeps a record of what it has done so far, which only grows. What a
run performs is every beginning of the records along it (`Performs`);
that is enough to tell runs apart that never come to an end, since a
sequence of events, finite or not, is known by its beginnings.

# Agreement

Two runs agree (`Agrees`) if they perform the same, and if one comes to
an end exactly when the other does, in states that belong together. It
is proved one step at a time (`Simulation`): each step of the one side
is one or more steps of the other, and where the one stops, the other
has at most some idle steps left. Reachability and the transport along
a respected relation are the library's `StateTransition`.

# Stretches

What is to hold of every state of a run is proved one stretch at a time
(`Along`), from joint to joint (`holds_of_stretches`).
-/
import Mathlib.Computability.StateTransition
import Mathlib.Data.List.Infix

namespace TapeAsm

open StateTransition Relation

/-- A system that runs by single steps and keeps a record of its
events, the oldest first. -/
structure System (σ ε : Type) where
  step : σ → Option σ
  record : σ → List ε
  record_step : ∀ {a b}, step a = some b → record a <+: record b

namespace System

variable {σ τ υ ε : Type}

-- ======================================================= what is seen

/-- The run from `a` performs these events, in this order and before
any others. -/
def Performs (S : System σ ε) (a : σ) (es : List ε) : Prop :=
  ∃ b, Reaches S.step a b ∧ es <+: S.record b

/-- The run from `a` comes to an end, in `b`. -/
def EndsIn (S : System σ ε) (a b : σ) : Prop :=
  b ∈ eval S.step a

/-- Two runs perform the same events, and one comes to an end exactly
when the other does, in states that are related. -/
structure Agrees (S : System σ ε) (T : System τ ε) (ends : σ → τ → Prop)
    (a : σ) (b : τ) : Prop where
  performs : ∀ es, S.Performs a es ↔ T.Performs b es
  endsIn : ∀ a', S.EndsIn a a' → ∃ b', T.EndsIn b b' ∧ ends a' b'
  endsIn_rev : ∀ b', T.EndsIn b b' → ∃ a', S.EndsIn a a' ∧ ends a' b'

variable {S : System σ ε} {T : System τ ε} {U : System υ ε}

/-- The record grows along a whole stretch of a run. -/
theorem record_reaches {a b : σ} (h : Reaches S.step a b) :
    S.record a <+: S.record b := by
  induction h with
  | refl => exact List.prefix_refl _
  | tail _ hstep ih => exact ih.trans (S.record_step hstep)

/-- A run performs what it performs from any later state on: what came
before that state is in the record already. -/
theorem performs_of_reaches {a b : σ} (h : Reaches S.step a b)
    (es : List ε) : S.Performs a es ↔ S.Performs b es := by
  constructor
  · rintro ⟨c, hc, hes⟩
    rcases reaches_total h hc with hbc | hcb
    · exact ⟨c, hbc, hes⟩
    · exact ⟨b, .refl, hes.trans (record_reaches hcb)⟩
  · rintro ⟨c, hc, hes⟩
    exact ⟨c, h.trans hc, hes⟩

/-- A run agrees with itself from any later state on. -/
theorem agrees_of_reaches {a b : σ} (h : Reaches S.step a b) :
    S.Agrees S Eq a b where
  performs := performs_of_reaches h
  endsIn a' ha := ⟨a', by rwa [EndsIn, ← reaches_eval h], rfl⟩
  endsIn_rev b' hb := ⟨b', by rwa [EndsIn, reaches_eval h], rfl⟩

/-- Agreement read from the other side. -/
theorem Agrees.symm {p : σ → τ → Prop} {a : σ} {b : τ}
    (h : S.Agrees T p a b) : T.Agrees S (fun b' a' => p a' b') b a :=
  ⟨fun es => (h.performs es).symm, h.endsIn_rev, h.endsIn⟩

/-- Agreement from the first run to the third by way of the second. -/
theorem Agrees.trans {p : σ → τ → Prop} {q : τ → υ → Prop}
    {r : σ → υ → Prop} {a : σ} {b : τ} {c : υ}
    (hab : S.Agrees T p a b) (hbc : T.Agrees U q b c)
    (hr : ∀ a b c, p a b → q b c → r a c) : S.Agrees U r a c where
  performs es := (hab.performs es).trans (hbc.performs es)
  endsIn a' ha := by
    obtain ⟨b', hb, hp⟩ := hab.endsIn a' ha
    obtain ⟨c', hc, hq⟩ := hbc.endsIn b' hb
    exact ⟨c', hc, hr _ _ _ hp hq⟩
  endsIn_rev c' hc := by
    obtain ⟨b', hb, hq⟩ := hbc.endsIn_rev c' hc
    obtain ⟨a', ha, hp⟩ := hab.endsIn_rev b' hb
    exact ⟨a', ha, hr _ _ _ hp hq⟩

-- ========================================================= simulation

/-- A relation along which the one system is followed by the other. A
step is followed by at least one; where the first system stops, the
second one may still have some way to go. -/
structure Simulation (S : System σ ε) (T : System τ ε)
    (rel : σ → τ → Prop) : Prop where
  record : ∀ {a b}, rel a b → S.record a = T.record b
  advance : ∀ {a b a'}, rel a b → S.step a = some a' →
    ∃ b', rel a' b' ∧ Reaches₁ T.step b b'
  finish : ∀ {a b}, rel a b → S.step a = none →
    ∃ b', rel a b' ∧ Reaches T.step b b' ∧ T.step b' = none

/-- Related states of which the second has stopped if the first has:
the idle steps at the end are counted to the step before. -/
private def Settled (S : System σ ε) (T : System τ ε)
    (rel : σ → τ → Prop) (a : σ) (b : τ) : Prop :=
  rel a b ∧ (S.step a = none → T.step b = none)

/-- From related states the second system gets to a settled one. -/
private theorem Simulation.settle {rel : σ → τ → Prop}
    (sim : Simulation S T rel) {a : σ} {b : τ} (h : rel a b) :
    ∃ b', Settled S T rel a b' ∧ Reaches T.step b b' := by
  cases hstep : S.step a with
  | none =>
      obtain ⟨b', hrel, hreach, hstop⟩ := sim.finish h hstep
      exact ⟨b', ⟨hrel, fun _ => hstop⟩, hreach⟩
  | some a' =>
      exact ⟨b, ⟨h, fun hnone => by simp [hstep] at hnone⟩, .refl⟩

/-- Settled states follow each other as the library asks for it. -/
private theorem Simulation.respects {rel : σ → τ → Prop}
    (sim : Simulation S T rel) :
    Respects S.step T.step (Settled S T rel) := by
  rintro a b ⟨hrel, hstop⟩
  cases hstep : S.step a with
  | none => exact hstop hstep
  | some a' =>
      obtain ⟨b₁, hrel₁, hreach₁⟩ := sim.advance hrel hstep
      obtain ⟨b₂, hsettled, hreach₂⟩ := sim.settle hrel₁
      exact ⟨b₂, hsettled, hreach₁.trans_left hreach₂⟩

/-- A simulation is an agreement of the whole runs. -/
theorem Simulation.agrees {rel ends : σ → τ → Prop}
    (sim : Simulation S T rel)
    (hends : ∀ {a b}, rel a b → S.step a = none → T.step b = none →
      ends a b)
    {a : σ} {b : τ} (h : rel a b) : S.Agrees T ends a b := by
  obtain ⟨b₀, hsettled, hreach⟩ := sim.settle h
  have hresp := sim.respects
  have hagree : S.Agrees T ends a b₀ := by
    refine ⟨fun es => ⟨?_, ?_⟩, ?_, ?_⟩
    · rintro ⟨a', ha', hes⟩
      obtain ⟨b', hb', hbb'⟩ := tr_reaches hresp hsettled ha'
      exact ⟨b', hbb', by rwa [← sim.record hb'.1]⟩
    · rintro ⟨b', hb', hes⟩
      obtain ⟨a'', b'', hbb'', hrel'', haa''⟩ :=
        tr_reaches_rev hresp hsettled hb'
      refine ⟨a'', haa'', ?_⟩
      rw [sim.record hrel''.1]
      exact hes.trans (record_reaches hbb'')
    · intro a' ha'
      obtain ⟨b', hrel', hb'⟩ := tr_eval hresp hsettled ha'
      exact ⟨b', hb', hends hrel'.1 (mem_eval.1 ha').2 (mem_eval.1 hb').2⟩
    · intro b' hb'
      obtain ⟨a', hrel', ha'⟩ := tr_eval_rev hresp hsettled hb'
      exact ⟨a', ha', hends hrel'.1 (mem_eval.1 ha').2 (mem_eval.1 hb').2⟩
  exact hagree.trans (agrees_of_reaches hreach).symm
    fun _ _ _ hp hq => hq ▸ hp

end System

-- ====================================================== along a stretch

section Along

variable {σ : Type} {step : σ → Option σ} {holds : σ → Prop} {a b c : σ}

/-- A stretch of a run, from the one state to the other, along which
something holds of every state but the last. -/
def Along (step : σ → Option σ) (holds : σ → Prop) : σ → σ → Prop :=
  ReflTransGen fun a b => holds a ∧ step a = some b

/-- A stretch of at least one step. -/
def Along₁ (step : σ → Option σ) (holds : σ → Prop) : σ → σ → Prop :=
  TransGen fun a b => holds a ∧ step a = some b

theorem Along.reaches (h : Along step holds a b) : Reaches step a b :=
  ReflTransGen.mono (fun _ _ hab => hab.2) _ _ h

theorem Along₁.along (h : Along₁ step holds a b) : Along step holds a b :=
  TransGen.to_reflTransGen h

theorem Along₁.reaches₁ (h : Along₁ step holds a b) : Reaches₁ step a b :=
  TransGen.mono (fun _ _ hab => hab.2) _ _ h

/-- A stretch that leads elsewhere is of at least one step. -/
theorem Along.along₁ (h : Along step holds a b) (hne : b ≠ a) :
    Along₁ step holds a b :=
  (reflTransGen_iff_eq_or_transGen.mp h).resolve_left hne

/-- What holds along stretches that follow each other holds always: where
one stretch ends, at a joint, the next one begins, or else the run is
over. So a run stops nowhere else. -/
theorem holds_of_stretches {joint finished : σ → Prop}
    (hfinished : ∀ {a}, finished a → step a = none)
    (hnext : ∀ {a}, joint a →
      (holds a ∧ finished a) ∨ ∃ b, Along₁ step holds a b ∧ joint b)
    (ha : joint a) (h : Reaches step a b) :
    holds b ∧ (step b = none → finished b) := by
  -- wherever the run is, there is a joint still ahead of it
  have hahead : ∃ c, Along step holds b c ∧ joint c := by
    induction h with
    | refl => exact ⟨a, .refl, ha⟩
    | @tail b b' _ hstep ih =>
        obtain ⟨c, hbc, hc⟩ := ih
        rcases hbc.cases_head with rfl | ⟨b₁, ⟨-, hb₁⟩, hrest⟩
        · rcases hnext hc with ⟨-, hb⟩ | ⟨d, hbd, hd⟩
          · exact absurd ((hfinished hb).symm.trans hstep) nofun
          · obtain ⟨b₁, ⟨-, hb₁⟩, hrest⟩ := TransGen.head'_iff.mp hbd
            cases hb₁.symm.trans hstep
            exact ⟨d, hrest, hd⟩
        · cases hb₁.symm.trans hstep
          exact ⟨c, hrest, hc⟩
  have hhere : (holds b ∧ finished b) ∨ ∃ b₁, holds b ∧ step b = some b₁ := by
    obtain ⟨c, hbc, hc⟩ := hahead
    rcases hbc.cases_head with rfl | ⟨b₁, hb₁, -⟩
    · rcases hnext hc with hb | ⟨d, hbd, -⟩
      · exact .inl hb
      · obtain ⟨b₁, hb₁, -⟩ := TransGen.head'_iff.mp hbd
        exact .inr ⟨b₁, hb₁⟩
    · exact .inr ⟨b₁, hb₁⟩
  rcases hhere with ⟨hb, hend⟩ | ⟨b₁, hb, hstep⟩
  · exact ⟨hb, fun _ => hend⟩
  · exact ⟨hb, fun hstop => absurd (hstop.symm.trans hstep) nofun⟩

end Along

end TapeAsm
