/-
Reading tokens off a text, at once (`Token.scan`) or step by step
(`Scanner.next`, `Scanner.drain`). A scanner is a value: a copy taken
in the middle goes on from there, whatever becomes of the first one.
-/
import TapeAsm.Source.Token

namespace TapeAsm

namespace Token

/-- The tokens of a text that begins at `p`, the end of the input
last. -/
def scanFrom (p : Position) : List Char → List Token
  | [] => [⟨.endOfInput, p⟩]
  | c :: cs =>
    if isBlank c then scanFrom (p.after c) cs
    else ⟨.ofChar c, p⟩ :: scanFrom (p.after c) cs

/-- The tokens of a whole source text. -/
def scan (source : String) : List Token :=
  scanFrom .start source.toList

/-- Blanks in front only move the place. -/
theorem scanFrom_skip (p : Position) (cs : List Char) :
    scanFrom p cs
      = scanFrom (p.afterAll (cs.takeWhile isBlank))
          (cs.dropWhile isBlank) := by
  induction cs generalizing p with
  | nil => rfl
  | cons c cs ih =>
    by_cases hc : isBlank c = true
    · rw [List.takeWhile_cons_of_pos hc, List.dropWhile_cons_of_pos hc,
        Position.afterAll_cons, ← ih]
      simp only [scanFrom, if_pos hc]
    · rw [List.takeWhile_cons_of_neg hc, List.dropWhile_cons_of_neg hc,
        Position.afterAll_nil]

end Token

/-- A reader of tokens part of the way through a text. The place can be
moved by hand; the characters still to come are not affected. -/
structure Scanner where
  position : Position := .start
  rest : List Char
  finished : Bool := false

namespace Scanner

/-- A scanner before the first character of a text. -/
def ofString (source : String) : Scanner :=
  { rest := source.toList }

/-- The scanner behind the blanks that come next. -/
def skipBlanks (s : Scanner) : Scanner :=
  let blanks := s.rest.takeWhile isBlank
  { s with
    position := s.position.afterAll blanks
    rest := s.rest.dropWhile isBlank }

/-- The next token and the scanner behind it. The end of the input is
handed out once, after it there is no token any more. -/
def next (s : Scanner) : Option Token × Scanner :=
  if s.finished then (none, s)
  else
    let s := s.skipBlanks
    match s.rest with
    | [] => (some ⟨.endOfInput, s.position⟩, { s with finished := true })
    | c :: cs =>
      (some ⟨.ofChar c, s.position⟩,
        { s with position := s.position.after c, rest := cs })

/-- All the tokens that are left and the scanner at the end. -/
def drain (s : Scanner) : List Token × Scanner :=
  if s.finished then ([], s)
  else
    (Token.scanFrom s.position s.rest,
      { position := s.position.afterAll s.rest
        rest := []
        finished := true })

/-- Draining hands out what stepping hands out, one token after the
other. -/
theorem drain_eq_next (s : Scanner) :
    s.drain =
      match s.next with
      | (none, s') => ([], s')
      | (some token, s') => (token :: s'.drain.1, s'.drain.2) := by
  obtain ⟨p, cs, finished⟩ := s
  cases finished with
  | true => rfl
  | false =>
    have hsplit := List.takeWhile_append_dropWhile (p := isBlank) (l := cs)
    have hplace : p.afterAll cs
        = (p.afterAll (cs.takeWhile isBlank)).afterAll
            (cs.dropWhile isBlank) := by
      rw [← Position.afterAll_append, hsplit]
    simp only [drain, next, skipBlanks, Bool.false_eq_true, if_false]
    rw [Token.scanFrom_skip, hplace]
    cases hrest : cs.dropWhile isBlank with
    | nil => rfl
    | cons c rest =>
      have hc : isBlank c = false := by
        have := List.head?_dropWhile_not isBlank cs
        simpa [hrest] using this
      simp [Token.scanFrom, hc]

end Scanner

end TapeAsm
