/-
One scanner, request by request. A step passes the blanks that come next
and one character more (`Scanner.next_eq`), whose token it hands out; so
between two requests a scanner stands right behind the last token, in
front of blanks that it has not seen yet. How far it has read is told by
the number of tokens that it has handed out (`Token.readUpTo`).

The place of a scanner is moved along with the text and may be set by
hand. A scan of the rest of a text from any place has the tokens of the
text itself, with places that go on from there (`Token.scanFrom_moved`).
-/
import TapeAsm.Proofs.Source.Tokens

namespace TapeAsm

-- ============================================================ requests

namespace Scanner

/-- What a scanner can be asked for. -/
inductive Request where
  | next
  | drain
  | copy
  | place (p : Position)
deriving DecidableEq

/-- Whether a scanner is asked to move. -/
def Request.isPlace : Request → Bool
  | next => false
  | drain => false
  | copy => false
  | place _ => true

/-- The tokens that a scanner hands out on a request. -/
def answer (s : Scanner) : Request → List Token
  | .next => s.next.1.toList
  | .drain => s.drain.1
  | .copy => []
  | .place _ => []

/-- The scanner behind a request. -/
def serve (s : Scanner) : Request → Scanner
  | .next => s.next.2
  | .drain => s.drain.2
  | .copy => s
  | .place p => { s with position := p }

-- =============================================================== steps

/-- How many blanks a text begins with. -/
def blanks (cs : List Char) : Nat := (cs.takeWhile isBlank).length

theorem blanks_le_length (cs : List Char) : blanks cs ≤ cs.length :=
  (List.takeWhile_prefix _).length_le

theorem skipBlanks_eq (s : Scanner) :
    s.skipBlanks = { s with
      position := s.position.afterAll (s.rest.take (blanks s.rest))
      rest := s.rest.drop (blanks s.rest) } := by
  have htake : s.rest.takeWhile isBlank = s.rest.take (blanks s.rest) :=
    List.prefix_iff_eq_take.mp (List.takeWhile_prefix _)
  have hdrop : s.rest.drop (blanks s.rest) = s.rest.dropWhile isBlank := by
    nth_rewrite 2 [← List.takeWhile_append_dropWhile (p := isBlank)
      (l := s.rest)]
    exact List.drop_left
  rw [skipBlanks, htake, hdrop]

end Scanner

/-- The kind of the token at a character, or of the end behind the last
one. -/
def TokenKind.ofChar? : Option Char → TokenKind
  | none => .endOfInput
  | some c => ofChar c

namespace Scanner

variable {s : Scanner}

/-- A step passes the blanks and one character more, if there is one. -/
theorem next_eq (h : s.finished = false) :
    s.next =
      (some ⟨.ofChar? s.rest[blanks s.rest]?,
          s.position.afterAll (s.rest.take (blanks s.rest))⟩,
        { position := s.position.afterAll (s.rest.take (blanks s.rest + 1))
          rest := s.rest.drop (blanks s.rest + 1)
          finished := decide (s.rest.length ≤ blanks s.rest) }) := by
  simp only [next, h, Bool.false_eq_true, if_false, skipBlanks_eq]
  cases hrest : s.rest.drop (blanks s.rest) with
  | nil =>
      have hle : s.rest.length ≤ blanks s.rest :=
        List.drop_eq_nil_iff.mp hrest
      rw [List.getElem?_eq_none hle, List.take_of_length_le hle,
        List.take_of_length_le (by omega), List.drop_eq_nil_of_le (by omega)]
      simp [hle, TokenKind.ofChar?]
  | cons c cs =>
      have hlt : blanks s.rest < s.rest.length := by
        by_contra hle
        rw [List.drop_eq_nil_of_le (by omega)] at hrest
        cases hrest
      have hc : s.rest[blanks s.rest]? = some c := by
        rw [← List.head?_drop, hrest]
        rfl
      have hcs : s.rest.drop (blanks s.rest + 1) = cs := by
        rw [← List.tail_drop, hrest]
        rfl
      rw [hc, hcs, List.take_add_one, hc, Position.afterAll_append]
      simp [TokenKind.ofChar?, hlt]

theorem drain_eq (h : s.finished = false) :
    s.drain.1 = Token.scanFrom s.position s.rest := by
  rw [drain, if_neg (by simp [h])]

/-- A scanner that has handed out the end does nothing any more. -/
theorem serve_of_finished (h : s.finished = true) :
    s.next = (none, s) ∧ s.drain = ([], s) := by
  constructor
  · rw [next, if_pos h]
  · rw [drain, if_pos h]

/-- A step hands out what draining would hand out first. -/
theorem next_eq_head? (s : Scanner) : s.next.1 = s.drain.1.head? := by
  rw [drain_eq_next]
  cases s.next with
  | mk token? s' => cases token? <;> rfl

end Scanner

-- ====================================================== parts of a text

namespace Token

/-- How many characters of a text have been read when so many of its
tokens have been handed out: all up to the last of these tokens. -/
def readUpTo (tokens : List Token) (number : Nat) : Nat :=
  match (tokens.take number).getLast? with
  | none => 0
  | some token => token.position.offset + 1

/-- One token more is read up to its own character. -/
theorem readUpTo_succ {tokens : List Token} {number : Nat} {token : Token}
    (h : tokens[number]? = some token) :
    readUpTo tokens (number + 1) = token.position.offset + 1 := by
  rw [readUpTo, List.take_add_one, h, Option.toList_some,
    List.getLast?_concat]

/-- A scan of the rest of a text from another place: the tokens have the
same kinds, and their places go on from there. -/
theorem scanFrom_moved {text : List Char} {j c : Nat} (hj : j ≤ c)
    (hc : c ≤ text.length) (p : Position) :
    scanFrom (p.afterAll ((text.take c).drop j)) (text.drop c)
      = (scanFrom (Position.start.afterAll (text.take c))
            (text.drop c)).map fun token =>
          ⟨token.kind,
            p.moved ((text.take token.position.offset).drop j)⟩ := by
  have hplace : ∀ i ≤ (text.drop c).length,
      (p.afterAll ((text.take c).drop j)).afterAll ((text.drop c).take i)
        = p.moved ((text.take
            ((Position.start.afterAll (text.take c)).afterAll
              ((text.drop c).take i)).offset).drop j) := by
    intro i hi
    have hoffset : ((Position.start.afterAll (text.take c)).afterAll
        ((text.drop c).take i)).offset = c + i := by
      rw [Position.offset_afterAll, Position.offset_afterAll,
        List.length_take_of_le hc, List.length_take_of_le hi]
      exact congrArg (· + i) (Nat.zero_add c)
    have hfront : j ≤ (text.take c).length := by
      rw [List.length_take_of_le hc]
      exact hj
    rw [hoffset, List.take_add, List.drop_append_of_le_length hfront,
      ← Position.afterAll_eq_moved, Position.afterAll_append]
  rw [scanFrom_eq, scanFrom_eq, List.map_append, List.map_map]
  congr 1
  · refine List.map_congr_left fun x hx => ?_
    obtain ⟨d, i⟩ := x
    have hi := List.snd_lt_of_mem_zipIdx (List.mem_of_mem_filter hx)
    exact congrArg (Token.mk _) (hplace i (Nat.le_of_lt (by simpa using hi)))
  · have hend := hplace (text.drop c).length (Nat.le_refl _)
    rw [List.take_length] at hend
    rw [hend]
    rfl

end Token

end TapeAsm
