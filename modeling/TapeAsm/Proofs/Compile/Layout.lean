/-
What of a source its assembly text depends on: its runs and its
brackets, and nothing else. How the source is laid out and what is
written in it between the symbols matters only where it keeps two runs
apart, and the places of things in it show in messages only.

The other way round, a text with comments tells the runs of its source
(`compile_runs`), however the counts are reduced in the code.
-/
import TapeAsm.Proofs.Asm.Comments
import TapeAsm.Proofs.Compile.Diagnostics
import TapeAsm.Proofs.Source.Runs

namespace TapeAsm

/-- Sources with the same runs compile to the same lines, or are wrong in
the same way. -/
theorem compile_alike {source source' : String}
    (h : runs source.toList = runs source'.toList) :
    (∀ options wanted, ∃ lines,
        compile source options wanted = .ok lines
          ∧ compile source' options wanted = .ok lines)
      ∨ ∃ e e', SyntaxError.Alike e e' ∧ ∀ options wanted,
        compile source options wanted = .error (.malformed e)
          ∧ compile source' options wanted = .error (.malformed e') := by
  rcases ofTokens_scan_alike h with ⟨p, hp, hp'⟩ | ⟨e, e', halike, he, he'⟩
  · refine .inl fun options wanted => ?_
    simp only [compile, hp, hp']
    exact ⟨_, rfl, rfl⟩
  · refine .inr ⟨e, e', halike, fun options wanted => ?_⟩
    simp only [compile, he, he', and_self]

/-- Sources that compile to the same lines, with comments and as they
are, have the same runs. -/
theorem runs_eq_of_compile {source source' : String}
    {options : Asm.Options} (hcomments : options.comments = true)
    {lines : List String} (h : compile source options [] = .ok lines)
    (h' : compile source' options [] = .ok lines) :
    runs source.toList = runs source'.toList := by
  obtain ⟨p, hp, rfl⟩ := Asm.compile_eq_ok h
  obtain ⟨p', hp', htexts⟩ := Asm.compile_eq_ok h'
  have hrecorded := Asm.recorded?_texts hcomments p
  rw [htexts, Asm.recorded?_texts hcomments p'] at hrecorded
  rw [← Program.pieces_of_scan hp, ← Program.pieces_of_scan hp',
    Option.some.inj hrecorded]

/-- The layout and the comments of a source have an influence only where
they split a run. With the same runs, two sources both compile, to the
same lines whatever is chosen, or both fail with the same kind of error;
and the lines with comments tell the runs. -/
theorem compile_runs :
    (∀ source source' : String,
        runs source.toList = runs source'.toList →
        (∀ options wanted, ∃ lines,
            compile source options wanted = .ok lines
              ∧ compile source' options wanted = .ok lines)
          ∨ ∃ e e', SyntaxError.Alike e e' ∧ ∀ options wanted,
            compile source options wanted = .error (.malformed e)
              ∧ compile source' options wanted
                = .error (.malformed e'))
      ∧ ∀ (source source' : String) (options : Asm.Options) lines,
        options.comments = true →
        compile source options [] = .ok lines →
        compile source' options [] = .ok lines →
        runs source.toList = runs source'.toList :=
  ⟨fun _ _ h => compile_alike h,
    fun _ _ _ _ hcomments h h' => runs_eq_of_compile hcomments h h'⟩

/-- Blanks in a run do not show, nor does a word beside a bracket, nor
what it is that keeps two runs apart. -/
theorem compile_runs_comment :
    let source := "+ +#+ [\n-]"
    let source' := "++é +loop[-]"
    runs source.toList = runs source'.toList
      ∧ ({} : Asm.Options).comments = true
      ∧ ∃ lines, compile source {} [] = .ok lines
        ∧ compile source' {} [] = .ok lines
        ∧ runs source.toList = runs source'.toList := by
  intro source source'
  have hruns : runs source.toList = runs source'.toList := by decide
  refine ⟨hruns, rfl, ?_⟩
  rcases compile_runs.1 source source' hruns with h | ⟨e, e', -, h⟩
  · obtain ⟨lines, hlines, hlines'⟩ := h {} []
    exact ⟨lines, hlines, hlines',
      compile_runs.2 source source' {} lines rfl hlines hlines'⟩
  · obtain ⟨lines, hlines⟩ := (exists_compile_eq_ok_iff source {} []).mpr
      ((exists_ofTokens_scan_iff source).mpr (by decide))
    exact absurd (hlines.symm.trans (h {} []).1) nofun

end TapeAsm
