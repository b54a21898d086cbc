/-
The tokens of a text against its characters, one by one. Every character
that is no blank makes one token, of its own kind and at the place that
counting the characters in front of it gives; behind them all comes the
end, once (`Token.Exact`). A scan moves its place along from character
to character and passes blanks on the way, so the closed form of it
(`Token.scanFrom_eq`) goes through by induction on the text, from any
place that the text may begin at.

Everything else is read off the members of a scan (`Token.mem_scanFrom`):
a token remembers its character, and where a later token stands, text has
been passed, which brings a place forward in offset as well as in lines
and columns (`Token.pairwise_scanFrom`).
-/
import TapeAsm.Proofs.Source.Place
import TapeAsm.Proofs.Source.Spelling
import TapeAsm.Source.Scanner

namespace TapeAsm

-- ============================================================= places

namespace Position

/-- Whether a place comes before another one as lines are read. -/
def Before (p q : Position) : Prop :=
  p.line < q.line ∨ p.line = q.line ∧ p.column < q.column

/-- Text brings a place forward, by a line or within its line. -/
theorem before_afterAll (p : Position) {cs : List Char} (h : cs ≠ []) :
    p.Before (p.afterAll cs) := by
  rw [afterAll_eq]
  by_cases hfeed : '\n' ∈ cs
  · left
    have hcount : 0 < cs.count '\n' := List.count_pos_iff.mpr hfeed
    show p.line < p.line + cs.count '\n'
    omega
  · right
    have hcount : cs.count '\n' = 0 := List.count_eq_zero.mpr hfeed
    have hlength : 0 < cs.length := List.length_pos_iff.mpr h
    simp only [hcount, length_lastLine hfeed, hfeed, if_false]
    omega

end Position

-- ========================================================= characters

/-- A character with a meaning has a kind of its own. -/
theorem TokenKind.isSymbol_eq_false {c d : Char}
    (h : ofChar c = .other d) : isSymbol d = false := by
  rcases charClass c with ⟨op, -, hkind⟩ | ⟨-, hkind⟩ | ⟨-, hkind⟩
    | ⟨hidle, hkind⟩
  · cases hkind.symm.trans h
  · cases hkind.symm.trans h
  · cases hkind.symm.trans h
  · obtain rfl := other.inj (hkind.symm.trans h)
    exact hidle.isSymbol_eq_false

theorem isBlank_iff {c : Char} :
    isBlank c = true ↔ c ∈ [' ', '\t', '\r', '\n'] := by
  simp [isBlank, or_assoc]

-- ============================================================== scans

namespace Token

/-- A scan in closed form: the characters with their numbers, blanks left
out, each with the place behind the text in front of it. -/
theorem scanFrom_eq (p : Position) (cs : List Char) :
    scanFrom p cs
      = (cs.zipIdx.filter fun x => !isBlank x.1).map
          (fun x => ⟨.ofChar x.1, p.afterAll (cs.take x.2)⟩)
        ++ [⟨.endOfInput, p.afterAll cs⟩] := by
  induction cs generalizing p with
  | nil => rfl
  | cons c cs ih =>
      have hrest : scanFrom (p.after c) cs
          = ((cs.zipIdx 1).filter fun x => !isBlank x.1).map
              (fun x => ⟨.ofChar x.1, p.afterAll ((c :: cs).take x.2)⟩)
            ++ [⟨.endOfInput, p.afterAll (c :: cs)⟩] := by
        rw [ih, List.zipIdx_succ, List.filter_map, List.map_map]
        rfl
      rw [List.zipIdx_cons]
      cases hblank : isBlank c with
      | true =>
          rw [scanFrom, if_pos hblank, hrest,
            List.filter_cons_of_neg (by simp [hblank])]
      | false =>
          rw [scanFrom, if_neg (by simp [hblank]), hrest,
            List.filter_cons_of_pos (by simp [hblank])]
          rfl

/-- A token of a scan is made from a character that is no blank, or it is
the end. -/
theorem mem_scanFrom {p : Position} {cs : List Char} {token : Token} :
    token ∈ scanFrom p cs ↔
      (∃ i c, cs[i]? = some c ∧ isBlank c = false
        ∧ token = ⟨.ofChar c, p.afterAll (cs.take i)⟩)
      ∨ token = ⟨.endOfInput, p.afterAll cs⟩ := by
  rw [scanFrom_eq, List.mem_append, List.mem_singleton]
  refine or_congr_left ⟨fun h => ?_, ?_⟩
  · obtain ⟨⟨c, i⟩, hmem, rfl⟩ := List.mem_map.mp h
    obtain ⟨hci, hblank⟩ := List.mem_filter.mp hmem
    exact ⟨i, c, List.mem_zipIdx_iff_getElem?.mp hci, by simpa using hblank,
      rfl⟩
  · rintro ⟨i, c, hci, hblank, rfl⟩
    refine List.mem_map.mpr ⟨(c, i), List.mem_filter.mpr ⟨?_, ?_⟩, rfl⟩
    · exact List.mem_zipIdx_iff_getElem?.mpr hci
    · simp [hblank]

/-- Between two tokens of a scan there is text, the character of the
first one at least. -/
theorem pairwise_scanFrom {R : Position → Position → Prop}
    (hR : ∀ p cs, cs ≠ [] → R p (p.afterAll cs)) (p : Position)
    (cs : List Char) :
    (scanFrom p cs).Pairwise fun s t => R s.position t.position := by
  induction cs generalizing p with
  | nil => exact List.pairwise_singleton ..
  | cons c cs ih =>
      rw [scanFrom]
      split
      · exact ih _
      · refine List.pairwise_cons.mpr ⟨fun token hmem => ?_, ih _⟩
        rcases mem_scanFrom.mp hmem with ⟨i, d, -, -, rfl⟩ | rfl
        · exact hR p (c :: cs.take i) (List.cons_ne_nil _ _)
        · exact hR p (c :: cs) (List.cons_ne_nil _ _)

-- ========================================================== exactness

/-- The tokens are those of the text, and no others. -/
structure Exact (cs : List Char) (tokens : List Token) : Prop where
  /-- There is a token for each character that is no blank, in the order
  of the text, of the kind of the character and at the place that is
  found by counting what stands before it, and at last the end. -/
  listed : tokens
    = (cs.zipIdx.filter fun x => !isBlank x.1).map
        (fun x => ⟨.ofChar x.1, .behind (cs.take x.2)⟩)
      ++ [⟨.endOfInput, .behind cs⟩]
  /-- A token shows the character that stands at its offset; at the
  offset of the end there is none. -/
  shown : ∀ token ∈ tokens,
    token.kind.symbol? = cs[token.position.offset]?
  /-- The characters that mean something have kinds of their own. -/
  meaningful : ∀ token ∈ tokens, ∀ c, token.kind = .other c →
    isSymbol c = false
  /-- The end comes once. -/
  ended : tokens.countP (fun token => token.kind = .endOfInput) = 1
  offsets : tokens.Pairwise fun s t =>
    s.position.offset < t.position.offset
  places : tokens.Pairwise fun s t => s.position.Before t.position
  /-- The offsets without a token are those of the blanks. -/
  blanks : ∀ i (h : i < cs.length),
    (∀ token ∈ tokens, token.position.offset ≠ i)
      ↔ cs[i] ∈ [' ', '\t', '\r', '\n']

/-- The offset of a character's token is the number of the character. -/
theorem offset_afterAll_take {cs : List Char} {i : Nat} {c : Char}
    (h : cs[i]? = some c) :
    (Position.start.afterAll (cs.take i)).offset = i := by
  obtain ⟨hi, -⟩ := List.getElem?_eq_some_iff.mp h
  rw [Position.offset_afterAll, List.length_take_of_le (Nat.le_of_lt hi)]
  exact Nat.zero_add i

/-- The end is the only token of a scan that is no character. -/
theorem countP_endOfInput_scanFrom (p : Position) (cs : List Char) :
    (scanFrom p cs).countP (fun token => token.kind = .endOfInput) = 1 := by
  induction cs generalizing p with
  | nil => rfl
  | cons c cs ih =>
      rw [scanFrom]
      split
      · exact ih _
      · rw [List.countP_cons_of_neg, ih]
        simp [TokenKind.ofChar_ne_endOfInput]

/-- The tokens of a source text are exactly those of its characters. -/
theorem exact_scan (source : String) :
    Exact source.toList (scan source) where
  listed := by
    rw [scan, scanFrom_eq]
    simp only [Position.afterAll_start]
  shown token hmem := by
    rcases mem_scanFrom.mp hmem with ⟨i, c, hci, -, rfl⟩ | rfl
    · rw [TokenKind.symbol?_ofChar, offset_afterAll_take hci, hci]
    · rw [Position.afterAll_start]
      exact (List.getElem?_eq_none (Nat.le_refl _)).symm
  meaningful token hmem d hkind := by
    rcases mem_scanFrom.mp hmem with ⟨i, c, -, -, rfl⟩ | rfl
    · exact TokenKind.isSymbol_eq_false hkind
    · cases hkind
  ended := countP_endOfInput_scanFrom ..
  offsets := by
    refine pairwise_scanFrom (R := fun p q => p.offset < q.offset) ?_ _ _
    intro p cs h
    have hlength := List.length_pos_iff.mpr h
    rw [Position.offset_afterAll]
    omega
  places := pairwise_scanFrom (fun p _ h => p.before_afterAll h) _ _
  blanks i hi := by
    have hget : source.toList[i]? = some source.toList[i] :=
      List.getElem?_eq_getElem hi
    rw [← isBlank_iff]
    constructor
    · intro hnone
      by_contra hinked
      refine hnone _ (mem_scanFrom.mpr (.inl ⟨i, _, hget, ?_, rfl⟩))
        (offset_afterAll_take hget)
      simpa using hinked
    · intro hblank token hmem hoffset
      rcases mem_scanFrom.mp hmem with ⟨j, c, hcj, hinked, rfl⟩ | rfl
      · obtain rfl := (offset_afterAll_take hcj).symm.trans hoffset
        obtain rfl := Option.some.inj (hcj.symm.trans hget)
        rw [hblank] at hinked
        cases hinked
      · rw [Position.afterAll_start] at hoffset
        exact absurd hoffset (Nat.ne_of_gt hi)

example : scan "+\r\n\té "
    = [⟨.op .increment, ⟨1, 1, 0⟩⟩, ⟨.other 'é', ⟨2, 2, 4⟩⟩,
      ⟨.endOfInput, ⟨2, 4, 6⟩⟩] := rfl

end Token

end TapeAsm
