/-
Brackets in a text, by counting. A text is contained if none of its
beginnings closes more brackets than it opens, and balanced if it also
closes as many as it opens in all. A text closes an opening bracket
before it if a balanced stretch and a closing bracket come first
(`Closes`): that bracket is the partner.

The two ways in which a text fails to be balanced come with the bracket
that is to blame. A text that is not contained has a first bracket that
closes too much, and what comes before that bracket is balanced
(`closes_of_not_contained`). In a balanced text every bracket that opens
is closed (`Balanced.closes`), and behind the text none is
(`Contained.not_closes`).
-/
import Mathlib.Data.List.Infix

namespace TapeAsm.Brackets

/-- No beginning of the text closes more brackets than it opens. -/
def Contained (cs : List Char) : Prop :=
  ∀ q, q <+: cs → q.count ']' ≤ q.count '['

/-- Every bracket of the text has its partner in it. -/
def Balanced (cs : List Char) : Prop :=
  Contained cs ∧ cs.count '[' = cs.count ']'

instance (cs : List Char) : Decidable (Contained cs) :=
  decidable_of_iff (∀ q ∈ cs.inits, q.count ']' ≤ q.count '[')
    (forall_congr' fun q => by rw [List.mem_inits])

instance (cs : List Char) : Decidable (Balanced cs) :=
  inferInstanceAs (Decidable (_ ∧ _))

/-- The text closes a bracket that was opened just before it. -/
def Closes (cs : List Char) : Prop :=
  ∃ inner rest, cs = inner ++ ']' :: rest ∧ Balanced inner

-- ======================================================== composition

theorem contained_nil : Contained [] := by
  intro q hq
  rw [List.prefix_nil.mp hq]
  exact Nat.le_refl _

theorem balanced_nil : Balanced [] := ⟨contained_nil, rfl⟩

/-- A contained text may be opened before. -/
theorem Contained.cons {c : Char} {cs : List Char} (hc : c ≠ ']')
    (h : Contained cs) : Contained (c :: cs) := by
  intro q hq
  rcases List.prefix_cons_iff.mp hq with rfl | ⟨q', rfl, hq'⟩
  · exact Nat.le_refl _
  · have hle := h q' hq'
    have hmono : q'.count '[' ≤ (c :: q').count '[' :=
      List.count_le_count_cons
    rw [List.count_cons_of_ne hc]
    omega

theorem Contained.append {as bs : List Char} (ha : Contained as)
    (hb : Contained bs) : Contained (as ++ bs) := by
  intro q hq
  rcases List.prefix_or_prefix_of_prefix hq (List.prefix_append as bs)
    with hqa | ⟨r, rfl⟩
  · exact ha q hqa
  · have hr := hb r ((List.prefix_append_right_inj as).mp hq)
    have has := ha as (List.prefix_refl _)
    simp only [List.count_append]
    omega

theorem Balanced.append {as bs : List Char} (ha : Balanced as)
    (hb : Balanced bs) : Balanced (as ++ bs) := by
  refine ⟨ha.1.append hb.1, ?_⟩
  rw [List.count_append, List.count_append, ha.2, hb.2]

/-- A character that is no bracket is balanced. -/
theorem balanced_singleton {c : Char} (hopen : c ≠ '[')
    (hclose : c ≠ ']') : Balanced [c] := by
  refine ⟨contained_nil.cons hclose, ?_⟩
  rw [List.count_cons_of_ne hopen, List.count_cons_of_ne hclose]
  rfl

/-- A balanced text between two brackets is balanced. -/
theorem Balanced.enclose {inner : List Char} (h : Balanced inner) :
    Balanced ('[' :: (inner ++ [']'])) := by
  have hcount := h.2
  refine ⟨?_, by simp [hcount]⟩
  intro q hq
  rcases List.prefix_cons_iff.mp hq with rfl | ⟨r, rfl, hr⟩
  · exact Nat.le_refl _
  · rcases List.prefix_concat_iff.mp hr with rfl | hr
    · simp [hcount]
    · have hle := h.1 r hr
      simp
      omega

-- ================================================== the ones to blame

/-- A text that is not contained has a first bracket that closes too
much, behind a balanced stretch. -/
theorem closes_of_not_contained {cs : List Char} (h : ¬ Contained cs) :
    Closes cs := by
  induction cs using List.reverseRecOn with
  | nil => exact absurd contained_nil h
  | append_singleton cs c ih =>
      by_cases hcs : Contained cs
      · -- the last character is to blame, and only it can be
        have hwhole : (cs ++ [c]).count '[' < (cs ++ [c]).count ']' := by
          by_contra hle
          refine h fun q hq => ?_
          rcases List.prefix_concat_iff.mp hq with rfl | hq
          · omega
          · exact hcs q hq
        have hle := hcs cs (List.prefix_refl _)
        simp only [List.count_append, List.count_singleton] at hwhole
        by_cases hc : c = ']'
        · subst hc
          refine ⟨cs, [], rfl, hcs, ?_⟩
          simp at hwhole
          omega
        · simp only [beq_iff_eq, hc, if_false] at hwhole
          omega
      · obtain ⟨inner, rest, rfl, hinner⟩ := ih hcs
        exact ⟨inner, rest ++ [c], by simp, hinner⟩

/-- A contained text does not close what was opened before it. -/
theorem Contained.not_closes {cs : List Char} (h : Contained cs) :
    ¬ Closes cs := by
  rintro ⟨inner, rest, rfl, hinner⟩
  have hle := h (inner ++ [']']) ⟨rest, by simp⟩
  have hcount := hinner.2
  simp at hle
  omega

/-- A text closes a bracket before it exactly if it is not contained. -/
theorem closes_iff {cs : List Char} : Closes cs ↔ ¬ Contained cs :=
  ⟨fun hcloses h => h.not_closes hcloses, closes_of_not_contained⟩

/-- In a balanced text, every bracket that opens is closed. -/
theorem Balanced.closes {as bs : List Char}
    (h : Balanced (as ++ '[' :: bs)) : Closes bs := by
  refine closes_of_not_contained fun hbs => ?_
  have hbefore := h.1 as (List.prefix_append ..)
  have hbehind := hbs bs (List.prefix_refl _)
  have hcount := h.2
  simp at hcount
  omega

end TapeAsm.Brackets
