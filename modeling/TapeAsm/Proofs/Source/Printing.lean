/-
Programs written down as texts. A run is its symbol, over and over, and
a loop its body between two brackets; a character without a meaning
keeps two neighbouring runs of one operation apart (`Prints`). With
blanks anywhere in it, such a text is read as the program that was
written, if no run of it is empty (`Program.ofTokens_printed`); and a program
with an empty run is not read from anything.

The text in front of a rest only lengthens the block that the rest is
read as (`Prints.ofTokens_append`), if the rest does not begin with an
operation that could join a run. In that form the statement goes through
by induction on the program, a loop's body with the closing bracket and
all behind it as the rest.
-/
import TapeAsm.Proofs.Source.Reading

namespace TapeAsm

-- ======================================================== characters

/-- The symbol of an operation is read as that operation. -/
theorem TokenKind.ofChar_symbol (op : Op) :
    ofChar op.symbol = .op op := by
  cases op <;> rfl

theorem Idle.ofChar_eq {c : Char} (h : Idle c) :
    TokenKind.ofChar c = .other c := by
  rcases charClass c with ⟨op, hc, -⟩ | ⟨hc, -⟩ | ⟨hc, -⟩ | ⟨-, hkind⟩
  · exact absurd hc (h.ne_symbol op)
  · exact absurd hc h.ne_open
  · exact absurd hc h.ne_close
  · exact hkind

theorem idle_hash : Idle '#' :=
  ⟨fun op => by cases op <;> decide, by decide, by decide⟩

/-- The characters of a text that are not there for its layout only. -/
def inked (cs : List Char) : List Char :=
  cs.filter fun c => !isBlank c

/-- Blanks are left out of each part by itself. -/
theorem inked_append (cs ds : List Char) :
    inked (cs ++ ds) = inked cs ++ inked ds :=
  List.filter_append ..

/-- A blank is left out. -/
theorem inked_cons_of_blank {c : Char} (h : isBlank c = true)
    (cs : List Char) : inked (c :: cs) = inked cs :=
  List.filter_cons_of_neg (by simp [h])

/-- Any other character stays. -/
theorem inked_cons {c : Char} (h : isBlank c = false) (cs : List Char) :
    inked (c :: cs) = c :: inked cs :=
  List.filter_cons_of_pos (by simp [h])

theorem inked_replicate_symbol (op : Op) (count : Nat) :
    inked (List.replicate count op.symbol)
      = List.replicate count op.symbol :=
  List.filter_replicate_of_pos (by cases op <;> rfl)

/-- The tokens of a text, apart from their places. -/
theorem Token.kinds_scanFrom (place : Position) (cs : List Char) :
    (scanFrom place cs).map kind
      = (inked cs).map TokenKind.ofChar ++ [.endOfInput] := by
  induction cs generalizing place with
  | nil => rfl
  | cons c cs ih =>
      cases hblank : isBlank c with
      | true =>
          rw [scanFrom, if_pos hblank, ih, inked_cons_of_blank hblank]
      | false =>
          rw [scanFrom, if_neg (by simp [hblank]), List.map_cons, ih,
            inked_cons hblank]
          rfl

theorem Token.kinds_scan (source : String) :
    (scan source).map kind
      = (inked source.toList).map TokenKind.ofChar ++ [.endOfInput] :=
  kinds_scanFrom ..

-- =========================================================== printing

/-- Whether a program begins with a run of the given operation. -/
def Program.beginsWith (op : Op) : Program → Bool
  | done => false
  | run op' _ _ => op' = op
  | loop _ _ => false

/-- The text is the program written down. -/
inductive Prints : Program → List Char → Prop where
  | done : Prints .done []
  | run (op : Op) (count : Nat) {next : Program} {cs : List Char}
    (hnext : next.beginsWith op = false) (h : Prints next cs) :
    Prints (.run op count next) (List.replicate count op.symbol ++ cs)
  | split (op : Op) (count : Nat) {next : Program} {c : Char}
    {cs : List Char} (hnext : next.beginsWith op = true) (hc : Idle c)
    (hinked : isBlank c = false) (h : Prints next cs) :
    Prints (.run op count next)
      (List.replicate count op.symbol ++ c :: cs)
  | loop {body next : Program} {inner cs : List Char}
    (hbody : Prints body inner) (h : Prints next cs) :
    Prints (.loop body next) ('[' :: (inner ++ ']' :: cs))

/-- Every program can be written down. -/
theorem exists_prints (p : Program) : ∃ cs, Prints p cs := by
  induction p with
  | done => exact ⟨[], .done⟩
  | run op count next ih =>
      obtain ⟨cs, h⟩ := ih
      cases hnext : next.beginsWith op with
      | true => exact ⟨_, .split op count hnext idle_hash rfl h⟩
      | false => exact ⟨_, .run op count hnext h⟩
  | loop body next ihBody ih =>
      obtain ⟨inner, hinner⟩ := ihBody
      obtain ⟨cs, h⟩ := ih
      exact ⟨_, .loop hinner h⟩

/-- There are no blanks in it. -/
theorem Prints.inked_eq {p : Program} {cs : List Char} (h : Prints p cs) :
    inked cs = cs := by
  induction h with
  | done => rfl
  | run op count _ _ ih =>
      rw [inked_append, inked_replicate_symbol, ih]
  | split op count _ _ hinked _ ih =>
      rw [inked_append, inked_replicate_symbol, inked_cons hinked, ih]
  | loop _ _ ihBody ih =>
      rw [inked_cons rfl, inked_append, ihBody, inked_cons rfl, ih]

-- ============================================================ reading

namespace Reading

@[simp] theorem startsWith_cons (op : Op) (token : Token)
    (rest : List Token) :
    startsWith op (token :: rest) = decide (token.kind = .op op) := rfl

/-- A run that is printed in front of others, if it does not join
them. -/
theorem ofTokens_printed_run {op : Op} {rest : List Token}
    (hrest : startsWith op rest = false) {count : Nat} (hcount : 0 < count)
    {front : List Token} (hfront : front.map Token.kind
      = (List.replicate count op.symbol).map TokenKind.ofChar) :
    ofTokens (front ++ rest) = (ofTokens rest).mapBlock (.run op count) := by
  rw [List.map_replicate, TokenKind.ofChar_symbol] at hfront
  have hlength : front.length = count := by
    simpa using congrArg List.length hfront
  have hkinds : ∀ token ∈ front, token.kind = .op op := by
    intro token htoken
    exact List.eq_of_mem_replicate (hfront ▸ List.mem_map_of_mem htoken)
  have hne : front ≠ [] := List.ne_nil_of_length_pos (hlength ▸ hcount)
  rw [← hlength]
  exact ofTokens_run hkinds hne hrest

/-- A loop in front of others, if its body is read as a block. -/
theorem ofTokens_loop {opening closing : Token}
    (hopen : opening.kind = .loopOpen) (hclose : closing.kind = .loopClose)
    {inner rest : List Token} {body : Program}
    (hbody : ofTokens (inner ++ closing :: rest)
      = (ofTokens (closing :: rest)).mapBlock (body ++ ·)) :
    ofTokens (opening :: (inner ++ closing :: rest))
      = (ofTokens rest).mapBlock (.loop body) := by
  have hclosed : ofTokens (closing :: rest)
      = .closed .done closing.position (closing :: rest) (ofTokens rest) := by
    rw [ofTokens, hclose]
  rw [ofTokens, hopen]
  simp only [hbody, hclosed, mapBlock, enclose, Program.append_done]

end Reading

namespace Prints

open Reading

variable {p : Program} {cs : List Char}

/-- The first token is an operation if the program begins with a run of
it. -/
theorem startsWith_append (h : Prints p cs) (hp : p.Positive) {op : Op}
    {front rest : List Token}
    (hfront : front.map Token.kind = cs.map TokenKind.ofChar)
    (hrest : startsWith op rest = false) :
    startsWith op (front ++ rest) = p.beginsWith op := by
  have hrun : ∀ {op'} {count : Nat} {next ds}, 0 < count →
      front.map Token.kind
        = (List.replicate count op'.symbol ++ ds).map TokenKind.ofChar →
      startsWith op (front ++ rest)
        = (Program.run op' count next).beginsWith op := by
    intro op' count next ds hcount hfront
    obtain ⟨count, rfl⟩ := Nat.exists_eq_succ_of_ne_zero hcount.ne'
    obtain ⟨token, front, rfl, hkind, -⟩ := List.map_eq_cons_iff.mp hfront
    rw [List.cons_append, startsWith_cons, hkind, TokenKind.ofChar_symbol]
    simp [Program.beginsWith]
  cases h with
  | done =>
      rw [List.map_eq_nil_iff.mp hfront]
      exact hrest
  | run op' count _ _ => exact hrun hp.1 hfront
  | split op' count _ _ _ _ => exact hrun hp.1 hfront
  | loop _ _ =>
      obtain ⟨token, front, rfl, hkind, -⟩ := List.map_eq_cons_iff.mp hfront
      rw [List.cons_append, startsWith_cons, hkind]
      rfl

/-- What is printed lengthens the block behind it by the program. -/
theorem ofTokens_append (h : Prints p cs) (hp : p.Positive)
    {front rest : List Token}
    (hfront : front.map Token.kind = cs.map TokenKind.ofChar)
    (hrest : ∀ op, startsWith op rest = false) :
    ofTokens (front ++ rest) = (ofTokens rest).mapBlock (p ++ ·) := by
  induction h generalizing front rest with
  | done =>
      rw [List.map_eq_nil_iff.mp hfront]
      cases hr : ofTokens rest <;> simp [hr, mapBlock]
  | run op count hnext h ih =>
      rw [List.map_append] at hfront
      obtain ⟨run, tail, rfl, hhead, htail⟩ := List.map_eq_append_iff.mp hfront
      have hstop : startsWith op (tail ++ rest) = false := by
        rw [h.startsWith_append hp.2 htail (hrest op), hnext]
      rw [List.append_assoc, ofTokens_printed_run hstop hp.1 hhead,
        ih hp.2 htail hrest, mapBlock_mapBlock]
      rfl
  | split op count hnext hc hinked h ih =>
      rw [List.map_append] at hfront
      obtain ⟨run, tail, rfl, hhead, htail⟩ := List.map_eq_append_iff.mp hfront
      obtain ⟨token, tail, rfl, hkind, htail⟩ := List.map_eq_cons_iff.mp htail
      rw [hc.ofChar_eq] at hkind
      have hstop : startsWith op (token :: (tail ++ rest)) = false := by
        rw [startsWith_cons, hkind]
        rfl
      have hskip : ofTokens (token :: (tail ++ rest))
          = ofTokens (tail ++ rest) := by
        rw [ofTokens, hkind]
      rw [List.append_assoc, List.cons_append,
        ofTokens_printed_run hstop hp.1 hhead, hskip, ih hp.2 htail hrest,
        mapBlock_mapBlock]
      rfl
  | loop hbody h ihBody ih =>
      obtain ⟨opening, tail, rfl, hopen, htail⟩ :=
        List.map_eq_cons_iff.mp hfront
      rw [List.map_append] at htail
      obtain ⟨inner, tail, rfl, hinner, htail⟩ :=
        List.map_eq_append_iff.mp htail
      obtain ⟨closing, tail, rfl, hclose, htail⟩ :=
        List.map_eq_cons_iff.mp htail
      have hstop : ∀ op, startsWith op (closing :: (tail ++ rest)) = false := by
        intro op
        rw [startsWith_cons, hclose]
        rfl
      rw [List.cons_append, List.append_assoc, List.cons_append,
        ofTokens_loop hopen hclose (ihBody hp.1 hinner hstop),
        ih hp.2 htail hrest, mapBlock_mapBlock]
      rfl

/-- A text that prints a program, blanks apart, is read as it. -/
theorem ofTokens_scan {source : String} (h : Prints p (inked source.toList))
    (hp : p.Positive) : Program.ofTokens (Token.scan source) = .ok p := by
  have hkinds := Token.kinds_scanFrom .start source.toList
  obtain ⟨front, rest, hscan, hfront, hrest⟩ :=
    List.map_eq_append_iff.mp hkinds
  obtain ⟨stop, rest, rfl, hstop, -⟩ := List.map_eq_cons_iff.mp hrest
  have hnone : ∀ op, startsWith op (stop :: rest) = false := by
    intro op
    rw [startsWith_cons, hstop]
    rfl
  have hreading := h.ofTokens_append hp hfront hnone
  rw [← hscan, Reading.ofTokens, hstop] at hreading
  simp [Program.ofTokens, Cursor.readProgram, Cursor.ofTokens, Token.scan,
    hreading, mapBlock, program]

end Prints

-- =========================================================== programs

/-- A program without empty runs that is written down, with blanks
anywhere, is read back. The programs that are read from tokens, of a
text or not, are those without empty runs. -/
theorem Program.ofTokens_printed :
    (∀ p : Program, p.Positive → ∀ source : String,
      Prints p (inked source.toList) →
      ofTokens (Token.scan source) = .ok p)
    ∧ ∀ p : Program, p.Positive ↔ ∃ tokens, ofTokens tokens = .ok p := by
  refine ⟨fun p hp source h => h.ofTokens_scan hp, fun p => ⟨?_, ?_⟩⟩
  · intro hp
    obtain ⟨cs, h⟩ := exists_prints p
    have hinked : inked (String.ofList cs).toList = cs := by
      rw [String.toList_ofList, h.inked_eq]
    rw [← hinked] at h
    exact ⟨_, h.ofTokens_scan hp⟩
  · rintro ⟨tokens, h⟩
    exact positive_of_ofTokens h

theorem Program.ofTokens_printed_split_run :
    (run .increment 2 (run .increment 1
      (loop (run .decrement 1 done) done))).Positive
    ∧ Prints (run .increment 2 (run .increment 1
        (loop (run .decrement 1 done) done))) (inked "+ +#+[\n-]".toList)
    ∧ ofTokens (Token.scan "+ +#+[\n-]")
      = .ok (run .increment 2 (run .increment 1
        (loop (run .decrement 1 done) done))) := by
  have hp : (run .increment 2 (run .increment 1
      (loop (run .decrement 1 done) done))).Positive := by
    simp [Positive]
  have hloop : Prints (loop (run .decrement 1 done) done) ['[', '-', ']'] :=
    .loop (.run .decrement 1 rfl .done) .done
  have h : Prints (run .increment 2 (run .increment 1
      (loop (run .decrement 1 done) done))) (inked "+ +#+[\n-]".toList) :=
    .split .increment 2 rfl idle_hash rfl (.run .increment 1 rfl hloop)
  exact ⟨hp, h, Program.ofTokens_printed.1 _ hp _ h⟩

end TapeAsm
