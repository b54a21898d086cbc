/-
Places in closed form. The place behind a stretch of text is found by
counting the stretch: its line feeds, the characters behind the last of
them, and all its characters (`Position.afterAll_eq`).
-/
import Mathlib.Data.List.Induction
import Mathlib.Data.List.TakeWhile
import TapeAsm.Source.Position

namespace TapeAsm.Position

/-- The end of a stretch of text, behind its last line feed. -/
def lastLine (cs : List Char) : List Char :=
  cs.reverse.takeWhile (· ≠ '\n')

/-- A text without a line feed is one line. -/
theorem length_lastLine {cs : List Char} (h : '\n' ∉ cs) :
    (lastLine cs).length = cs.length := by
  have hall : ∀ c ∈ cs.reverse, decide (c ≠ '\n') = true := by
    intro c hc
    have hne : c ≠ '\n' := fun heq => h (heq ▸ List.mem_reverse.mp hc)
    exact decide_eq_true hne
  rw [lastLine, List.takeWhile_eq_self_iff.mpr hall, List.length_reverse]

/-- The place behind a text, by counting: the line feeds in it, the
characters behind the last of them, and all its characters. -/
def behind (cs : List Char) : Position where
  line := 1 + cs.count '\n'
  column := 1 + (lastLine cs).length
  offset := cs.length

/-- The place behind a stretch of text. The column goes on from where
the stretch begins only if there is no line feed in it. -/
theorem afterAll_eq (p : Position) (cs : List Char) :
    p.afterAll cs
      = { line := p.line + cs.count '\n'
          column := (if '\n' ∈ cs then 1 else p.column)
            + (lastLine cs).length
          offset := p.offset + cs.length } := by
  induction cs using List.reverseRecOn with
  | nil => rfl
  | append_singleton cs c ih =>
      rw [afterAll_append, afterAll_cons, afterAll_nil, ih]
      by_cases hc : c = '\n'
      · simp [after, lastLine, hc, Nat.add_assoc]
      · have hmem : '\n' ∈ cs ++ [c] ↔ '\n' ∈ cs := by
          simp [Ne.symm hc]
        simp only [after, hc, hmem, if_false, lastLine, List.count_append,
          List.reverse_append, List.length_append]
        simp [hc, Nat.add_assoc]

/-- The place behind a stretch of text that begins at `p`: every character
counts for the offset and every line feed for the lines, and the column
is counted from the last line feed if there is one. -/
def moved (p : Position) (cs : List Char) : Position where
  line := p.line + cs.count '\n'
  column :=
    if '\n' ∈ cs then 1 + (lastLine cs).length else p.column + cs.length
  offset := p.offset + cs.length

theorem afterAll_eq_moved (p : Position) (cs : List Char) :
    p.afterAll cs = p.moved cs := by
  rw [afterAll_eq]
  by_cases h : '\n' ∈ cs
  · simp [moved, h]
  · simp [moved, h, length_lastLine h]

/-- The place behind a whole text. -/
theorem afterAll_start (cs : List Char) :
    start.afterAll cs = behind cs := by
  rw [afterAll_eq]
  simp [start, behind]

end TapeAsm.Position
