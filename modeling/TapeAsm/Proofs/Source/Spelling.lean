/-
Which texts spell which programs. A text spells a program operation by
operation: each operation is its symbol, a loop is its body between two
brackets, and idle characters may stand anywhere. How operations are
gathered into runs does not show in a text, so the program on the other
side is one without runs (`Program.singly`).

A text that spells a program is balanced, and two such texts, one after
the other, spell the two programs together. What the text has to say,
its operations and brackets, is what the program is made of
(`Spells.symbols_eq`).
-/
import TapeAsm.Program.Basic
import TapeAsm.Proofs.Source.Brackets

namespace TapeAsm

-- ========================================================= characters

/-- A character that is no operation and no bracket. -/
structure Idle (c : Char) : Prop where
  ne_symbol : ∀ op : Op, c ≠ op.symbol
  ne_open : c ≠ '['
  ne_close : c ≠ ']'

/-- The kind of token that a character makes, by what the character
is. -/
inductive CharClass (c : Char) : Prop where
  | op (op : Op) (hc : c = op.symbol)
    (hkind : TokenKind.ofChar c = .op op)
  | opening (hc : c = '[') (hkind : TokenKind.ofChar c = .loopOpen)
  | closing (hc : c = ']') (hkind : TokenKind.ofChar c = .loopClose)
  | idle (hc : Idle c) (hkind : TokenKind.ofChar c = .other c)

/-- Every character is an operation, a bracket, or idle. -/
theorem charClass (c : Char) : CharClass c := by
  by_cases hop : ∃ op : Op, c = op.symbol
  · obtain ⟨op, rfl⟩ := hop
    exact .op op rfl (by cases op <;> rfl)
  · by_cases hopen : c = '['
    · exact .opening hopen (by rw [hopen]; rfl)
    · by_cases hclose : c = ']'
      · exact .closing hclose (by rw [hclose]; rfl)
      · have hne : ∀ op : Op, c ≠ op.symbol := fun op h => hop ⟨op, h⟩
        refine .idle ⟨hne, hopen, hclose⟩ ?_
        unfold TokenKind.ofChar
        split
        · exact absurd rfl (hne .moveRight)
        · exact absurd rfl (hne .moveLeft)
        · exact absurd rfl (hne .increment)
        · exact absurd rfl (hne .decrement)
        · exact absurd rfl (hne .write)
        · exact absurd rfl (hne .read)
        · exact absurd rfl hopen
        · exact absurd rfl hclose
        · rfl

/-- A blank is idle. -/
theorem idle_of_isBlank {c : Char} (h : isBlank c = true) : Idle c := by
  simp only [isBlank, Bool.or_eq_true, decide_eq_true_eq] at h
  refine ⟨fun op => ?_, ?_, ?_⟩
  · rcases h with ((rfl | rfl) | rfl) | rfl <;> cases op <;> decide
  · rcases h with ((rfl | rfl) | rfl) | rfl <;> decide
  · rcases h with ((rfl | rfl) | rfl) | rfl <;> decide

-- ============================================================== texts

/-- The text spells the program, one operation after the other. -/
inductive Spells : List Char → Program → Prop where
  | done : Spells [] .done
  | idle {c : Char} {cs : List Char} {p : Program} (hc : Idle c)
    (h : Spells cs p) : Spells (c :: cs) p
  | op (op : Op) {cs : List Char} {p : Program} (h : Spells cs p) :
    Spells (op.symbol :: cs) (.run op 1 p)
  | loop {inner cs : List Char} {body p : Program}
    (hbody : Spells inner body) (h : Spells cs p) :
    Spells ('[' :: (inner ++ ']' :: cs)) (.loop body p)

namespace Spells

/-- What spells a program has its brackets in order. -/
theorem balanced {cs : List Char} {p : Program} (h : Spells cs p) :
    Brackets.Balanced cs := by
  induction h with
  | done => exact Brackets.balanced_nil
  | idle hc _ ih =>
      exact (Brackets.balanced_singleton hc.ne_open hc.ne_close).append ih
  | op op _ ih =>
      have hsymbol : Brackets.Balanced [op.symbol] := by
        refine Brackets.balanced_singleton ?_ ?_
        · cases op <;> decide
        · cases op <;> decide
      exact hsymbol.append ih
  | @loop inner cs body p _ _ ihBody ih =>
      have hloop := ihBody.enclose.append ih
      simpa using hloop

end Spells

-- ============================================================ symbols

/-- The characters that mean something: the six operations and the two
brackets. -/
def isSymbol (c : Char) : Bool :=
  c ∈ ['>', '<', '+', '-', '.', ',', '[', ']']

/-- Every operation has a symbol. -/
theorem isSymbol_symbol (op : Op) : isSymbol op.symbol = true := by
  cases op <;> rfl

theorem Idle.isSymbol_eq_false {c : Char} (h : Idle c) :
    isSymbol c = false := by
  have hne := h.ne_symbol
  apply decide_eq_false
  simp only [List.mem_cons, List.not_mem_nil, or_false, not_or]
  exact ⟨hne .moveRight, hne .moveLeft, hne .increment, hne .decrement,
    hne .write, hne .read, h.ne_open, h.ne_close⟩

/-- A piece of a program, symbol by symbol. -/
def Piece.symbols : Piece → List Char
  | run op count => List.replicate count op.symbol
  | opening => ['[']
  | closing => [']']

/-- A program, symbol by symbol. -/
def Program.symbols (p : Program) : List Char :=
  p.pieces.flatMap Piece.symbols

theorem Program.symbols_run (op : Op) (count : Nat)
    (next : Program) :
    (run op count next).symbols
      = List.replicate count op.symbol ++ next.symbols := rfl

theorem Program.symbols_loop (body next : Program) :
    (loop body next).symbols
      = '[' :: (body.symbols ++ ']' :: next.symbols) := by
  simp [symbols, pieces, Piece.symbols]

/-- The symbols of a text are those of the program that it spells. -/
theorem Spells.symbols_eq {cs : List Char} {p : Program}
    (h : Spells cs p) : cs.filter isSymbol = p.symbols := by
  induction h with
  | done => rfl
  | idle hc _ ih =>
      rw [List.filter_cons_of_neg (by simp [hc.isSymbol_eq_false]), ih]
  | op op _ ih =>
      rw [List.filter_cons_of_pos (isSymbol_symbol op), ih]
      rfl
  | loop _ _ ihBody ih =>
      rw [List.filter_cons_of_pos (by rfl), List.filter_append, ihBody,
        List.filter_cons_of_pos (by rfl), ih, Program.symbols_loop]

end TapeAsm
