/-
Which sources compile, and what is said about the others. Only brackets
can be wrong. A source has one of three verdicts (`Verdict`), which the
reading of its tokens decides: it is balanced; some bracket closes too
much, and the first that does is to blame, whatever comes after it; or
brackets stay open, and then the last of those is to blame. The places
in the messages are counted in the source itself (`Position.behind`).

That the tokens run out before the end is never said of a source, since
the scanner marks the end; and the verdict comes before anything that
options or optimizations decide.
-/
import TapeAsm.Compile
import TapeAsm.Proofs.Source.Place
import TapeAsm.Proofs.Source.Reading

namespace TapeAsm

open Brackets

/-- What becomes of a source, by its brackets. -/
inductive Verdict (cs : List Char) : Except SyntaxError Program → Prop
    where
  | accepted (h : Balanced cs) (p : Program) : Verdict cs (.ok p)
  /-- The first bracket that closes too much stands behind `inner`. -/
  | stray {inner rest : List Char} (hcs : cs = inner ++ ']' :: rest)
    (hinner : Balanced inner) :
    Verdict cs (.error (.strayClose (.behind inner)))
  /-- The last bracket that stays open stands behind `pre`. -/
  | unclosed {pre post : List Char} (hcs : cs = pre ++ '[' :: post)
    (hpre : Contained pre) (hpost : Balanced post) :
    Verdict cs (.error
      (.unclosedLoop (.behind pre) .endOfInput (.behind cs)))

/-- The verdict on a source is read off its brackets. -/
theorem verdict_scan (source : String) :
    Verdict source.toList (Program.ofTokens (Token.scan source)) := by
  have hdescribes := Reading.describes_scanFrom .start source.toList
  simp only [Program.ofTokens, Cursor.readProgram, Cursor.ofTokens,
    Token.scan]
  cases hr : Reading.ofTokens (Token.scanFrom .start source.toList) with
  | closed block stopAt stop outer =>
      rw [hr] at hdescribes
      obtain ⟨inner, rest, hcs, hinner, rfl, -⟩ := hdescribes
      rw [Position.afterAll_start]
      exact .stray hcs hinner.balanced
  | ended block stopAt stop =>
      rw [hr] at hdescribes
      exact .accepted hdescribes.1.balanced block
  | unclosed opened stopAt stop =>
      rw [hr] at hdescribes
      obtain ⟨pre, post, hcs, hpre, hpost, rfl, rfl⟩ := hdescribes
      rw [Position.afterAll_start, Position.afterAll_start]
      exact .unclosed hcs hpre hpost
  | exhausted =>
      rw [hr] at hdescribes
      exact hdescribes.elim

/-- A balanced stretch with a bracket that closes behind it is the
shortest beginning that is not contained. -/
theorem Brackets.Balanced.not_contained_concat {inner : List Char}
    (h : Balanced inner) : ¬ Contained (inner ++ [']']) :=
  closes_iff.mp ⟨inner, [], rfl, h⟩

-- ============================================ the program of a source

/-- The balanced sources spell programs. -/
theorem exists_ofTokens_scan_iff (source : String) :
    (∃ p, Program.ofTokens (Token.scan source) = .ok p)
      ↔ Balanced source.toList := by
  have hverdict := verdict_scan source
  generalize Program.ofTokens (Token.scan source) = result at hverdict ⊢
  cases hverdict with
  | accepted h p => exact ⟨fun _ => h, fun _ => ⟨p, rfl⟩⟩
  | @stray inner rest hcs hinner =>
      refine ⟨fun ⟨_, hp⟩ => (nomatch hp), fun h => ?_⟩
      exact absurd ⟨inner, rest, hcs, hinner⟩ h.1.not_closes
  | @unclosed pre post hcs hpre hpost =>
      refine ⟨fun ⟨_, hp⟩ => (nomatch hp), fun h => ?_⟩
      rw [hcs] at h
      exact absurd h.closes hpost.1.not_closes

/-- A source that is not contained has a first bracket that closes too
much, which the error names. -/
theorem ofTokens_scan_of_not_contained {source : String}
    (h : ¬ Contained source.toList) :
    ∃ pre post, source.toList = pre ++ ']' :: post
      ∧ Contained pre ∧ ¬ Contained (pre ++ [']'])
      ∧ Program.ofTokens (Token.scan source)
        = .error (.strayClose (.behind pre)) := by
  have hverdict := verdict_scan source
  generalize Program.ofTokens (Token.scan source) = result at hverdict ⊢
  cases hverdict with
  | accepted hbalanced p => exact absurd hbalanced.1 h
  | @stray inner rest hcs hinner =>
      exact ⟨inner, rest, hcs, hinner.1, hinner.not_contained_concat, rfl⟩
  | @unclosed pre post hcs hpre hpost =>
      rw [hcs] at h
      exact absurd (hpre.append (hpost.1.cons (by decide))) h

/-- A source that is contained but not balanced has a last bracket that
stays open, which the error names, with the end of the source. -/
theorem ofTokens_scan_of_not_balanced {source : String}
    (hcontained : Contained source.toList)
    (h : ¬ Balanced source.toList) :
    ∃ pre post, source.toList = pre ++ '[' :: post
      ∧ ¬ Closes post
      ∧ (∀ as bs, post = as ++ '[' :: bs → Closes bs)
      ∧ Program.ofTokens (Token.scan source)
        = .error (.unclosedLoop (.behind pre) .endOfInput
            (.behind source.toList)) := by
  have hverdict := verdict_scan source
  generalize Program.ofTokens (Token.scan source) = result at hverdict ⊢
  cases hverdict with
  | accepted hbalanced p => exact absurd hbalanced h
  | @stray inner rest hcs hinner =>
      exact absurd ⟨inner, rest, hcs, hinner⟩ hcontained.not_closes
  | @unclosed pre post hcs hpre hpost =>
      refine ⟨pre, post, hcs, hpost.1.not_closes, ?_, rfl⟩
      rintro as bs rfl
      exact hpost.closes

/-- The tokens of a source have an end. -/
theorem ofTokens_scan_ne_noEndMarker (source : String) (tokens : Nat) :
    Program.ofTokens (Token.scan source)
      ≠ .error (.noEndMarker tokens) := by
  have hverdict := verdict_scan source
  generalize Program.ofTokens (Token.scan source) = result at hverdict ⊢
  cases hverdict with
  | accepted h p => intro heq; cases heq
  | stray hcs hinner => intro heq; cases heq
  | unclosed hcs hpre hpost => intro heq; cases heq

-- ========================================================== compiling

section Compiling

variable (source : String) (options : Asm.Options)
  (wanted : List Optimization)

/-- A source compiles if it spells a program, whatever is chosen. -/
theorem exists_compile_eq_ok_iff :
    (∃ lines, compile source options wanted = .ok lines)
      ↔ ∃ p, Program.ofTokens (Token.scan source) = .ok p := by
  unfold compile
  cases Program.ofTokens (Token.scan source) with
  | error cause => exact ⟨fun ⟨_, h⟩ => (nomatch h), fun ⟨_, h⟩ => (nomatch h)⟩
  | ok p => exact ⟨fun _ => ⟨p, rfl⟩, fun _ => ⟨_, rfl⟩⟩

/-- Only what is wrong with a source keeps it from being compiled. -/
theorem compile_eq_error_iff (e : CompileError) :
    compile source options wanted = .error e
      ↔ ∃ cause, Program.ofTokens (Token.scan source) = .error cause
        ∧ e = .malformed cause := by
  unfold compile
  cases Program.ofTokens (Token.scan source) with
  | error cause =>
      constructor
      · intro h
        cases h
        exact ⟨cause, rfl, rfl⟩
      · rintro ⟨cause', h, rfl⟩
        cases h
        rfl
  | ok p => exact ⟨fun h => (nomatch h), fun ⟨_, h, _⟩ => (nomatch h)⟩

/-- What `compile` answers, by the brackets of the source. It succeeds
exactly on balanced sources. If some beginning closes more than it
opens, the shortest such ends with the bracket in the error. Otherwise
some loop is not closed, and the error names the last bracket without a
partner and the end of the source. The options and the optimizations
have no part in it. -/
theorem compile_outcome :
    ((∃ lines, compile source options wanted = .ok lines)
        ↔ Balanced source.toList)
      ∧ (¬ Contained source.toList →
        ∃ pre post, source.toList = pre ++ ']' :: post
          ∧ Contained pre ∧ ¬ Contained (pre ++ [']'])
          ∧ compile source options wanted
            = .error (.malformed (.strayClose (.behind pre))))
      ∧ (Contained source.toList → ¬ Balanced source.toList →
        ∃ pre post, source.toList = pre ++ '[' :: post
          ∧ ¬ Closes post
          ∧ (∀ as bs, post = as ++ '[' :: bs → Closes bs)
          ∧ compile source options wanted
            = .error (.malformed (.unclosedLoop (.behind pre) .endOfInput
                (.behind source.toList))))
      ∧ (∀ tokens, compile source options wanted
        ≠ .error (.malformed (.noEndMarker tokens)))
      ∧ ∀ options' wanted' e, compile source options' wanted' = .error e
        ↔ compile source options wanted = .error e := by
  refine ⟨?_, ?_, ?_, ?_, ?_⟩
  · rw [exists_compile_eq_ok_iff, exists_ofTokens_scan_iff]
  · intro h
    obtain ⟨pre, post, hcs, hpre, hfirst, herror⟩ :=
      ofTokens_scan_of_not_contained h
    refine ⟨pre, post, hcs, hpre, hfirst, ?_⟩
    exact (compile_eq_error_iff ..).mpr ⟨_, herror, rfl⟩
  · intro hcontained h
    obtain ⟨pre, post, hcs, hopen, hlater, herror⟩ :=
      ofTokens_scan_of_not_balanced hcontained h
    refine ⟨pre, post, hcs, hopen, hlater, ?_⟩
    exact (compile_eq_error_iff ..).mpr ⟨_, herror, rfl⟩
  · intro tokens h
    obtain ⟨cause, herror, hcause⟩ := (compile_eq_error_iff ..).mp h
    cases hcause
    exact ofTokens_scan_ne_noEndMarker source tokens herror
  · intro options' wanted' e
    rw [compile_eq_error_iff, compile_eq_error_iff]

end Compiling

/-- A bracket that closes too much is to blame even if others stay open
behind it, and of two brackets that stay open the later one is. -/
theorem compile_outcome_malformed :
    let stray := "[-]\n]+["
    let unclosed := "[é[\n[]"
    (¬ Contained stray.toList
        ∧ ∃ pre post, stray.toList = pre ++ ']' :: post
          ∧ Contained pre ∧ ¬ Contained (pre ++ [']'])
          ∧ compile stray {} []
            = .error (.malformed (.strayClose (.behind pre))))
      ∧ Contained unclosed.toList ∧ ¬ Balanced unclosed.toList
        ∧ ∃ pre post, unclosed.toList = pre ++ '[' :: post
          ∧ ¬ Closes post
          ∧ (∀ as bs, post = as ++ '[' :: bs → Closes bs)
          ∧ compile unclosed {} []
            = .error (.malformed (.unclosedLoop (.behind pre) .endOfInput
                (.behind unclosed.toList))) := by
  intro stray unclosed
  have hstray : ¬ Contained stray.toList := by decide
  have hcontained : Contained unclosed.toList := by decide
  have hunclosed : ¬ Balanced unclosed.toList := by decide
  refine ⟨⟨hstray, ?_⟩, hcontained, hunclosed, ?_⟩
  · exact (compile_outcome stray {} []).2.1 hstray
  · exact (compile_outcome unclosed {} []).2.2.1 hcontained hunclosed

/-- The same two sources, with the places as they are told. -/
example :
    compile "[-]\n]+[" {} []
        = .error (.malformed (.strayClose ⟨2, 1, 4⟩))
      ∧ compile "[é[\n[]" {} []
        = .error (.malformed (.unclosedLoop ⟨1, 3, 2⟩ .endOfInput
            ⟨2, 3, 6⟩)) :=
  ⟨by rfl, by rfl⟩

end TapeAsm
