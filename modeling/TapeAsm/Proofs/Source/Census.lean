/-
Counting what is in a source. Something that there is so much of for each
run of an operation, for each symbol in such a run and for each loop
(a `Share`) is there as often as the runs, the symbols and the opening
brackets of the source say (`Share.sum_of_scan`). The program does not
come into it: it has the pieces that the runs of the source make, and the
symbols that the source has.
-/
import Mathlib.Algebra.GroupWithZero.Nat
import TapeAsm.Proofs.Source.Runs

namespace TapeAsm

-- ============================================================ counting

/-- The number of runs of a character in a text. Blanks do not interrupt
a run, every other character does. -/
def runCount (c : Char) (cs : List Char) : Nat :=
  ((inked cs).splitBy (· == ·)).countP (·.head? = some c)

/-- How much there is of something for each run of an operation, for each
symbol in the run, and for each loop. -/
structure Share where
  run : Op → Nat
  symbol : Op → Nat
  loop : Nat

/-- How much there is for a piece of a program. -/
def Share.ofPiece (s : Share) : Piece → Nat
  | .run op count => s.run op + s.symbol op * count
  | .opening => s.loop
  | .closing => 0

/-- How much there is for a source. -/
def Share.ofSource (s : Share) (source : String) : Nat :=
  (Op.all.map fun op => s.run op * runCount op.symbol source.toList
      + s.symbol op * source.toList.count op.symbol).sum
    + s.loop * source.toList.count '['

-- ============================================================== pieces

theorem Op.symbol_injective : Function.Injective Op.symbol := by
  intro op op' h
  have hnamed := congrArg named? h
  rw [named?_symbol, named?_symbol] at hnamed
  exact Option.some.inj hnamed

/-- Whether a piece is a run of an operation. -/
def Piece.isRunOf (op : Op) : Piece → Bool
  | run op' _ => op' = op
  | opening => false
  | closing => false

/-- A group makes a run of the operation whose symbol it repeats. -/
theorem Piece.countP_ofGroup (op : Op) (group : List Char) :
    (ofGroup group).countP (isRunOf op)
      = if group.head? = some op.symbol then 1 else 0 := by
  have hbrackets : (group.filterMap bracket?).countP (isRunOf op) = 0 := by
    rw [List.countP_eq_zero]
    intro piece hpiece
    obtain ⟨c, -, hc⟩ := List.mem_filterMap.mp hpiece
    unfold bracket? at hc
    split at hc
    · cases hc
      exact Bool.false_ne_true
    · split at hc
      · cases hc
        exact Bool.false_ne_true
      · cases hc
  cases group with
  | nil => rfl
  | cons c group =>
      rw [List.head?_cons]
      rcases charClass c with ⟨op', rfl, -⟩ | ⟨rfl, -⟩ | ⟨rfl, -⟩ | ⟨hc, -⟩
      · simp [ofGroup, Op.named?_symbol, isRunOf, Op.symbol_injective.eq_iff]
      · rw [if_neg (by cases op <;> decide)]
        exact hbrackets
      · rw [if_neg (by cases op <;> decide)]
        exact hbrackets
      · rw [if_neg fun h => hc.ne_symbol op (Option.some.inj h), ofGroup,
          List.head?_cons, Option.bind_some, Op.named?_eq_none hc.ne_symbol]
        exact hbrackets

/-- The runs of an operation in a text are those of its symbol. -/
theorem countP_runs (op : Op) (cs : List Char) :
    (runs cs).countP (Piece.isRunOf op) = runCount op.symbol cs := by
  have hgroups : ∀ groups : List (List Char),
      (groups.flatMap Piece.ofGroup).countP (Piece.isRunOf op)
        = groups.countP (·.head? = some op.symbol) := by
    intro groups
    induction groups with
    | nil => rfl
    | cons group groups ih =>
        rw [List.flatMap_cons, List.countP_append, Piece.countP_ofGroup, ih,
          List.countP_cons, Nat.add_comm]
        simp
  exact hgroups _

/-- What there is for some pieces is told from their runs and their
symbols. -/
theorem Share.sum_ofPiece (s : Share) (ps : List Piece) :
    (ps.map s.ofPiece).sum
      = (Op.all.map fun op => s.run op * ps.countP (Piece.isRunOf op)
          + s.symbol op * (ps.flatMap Piece.symbols).count op.symbol).sum
        + s.loop * (ps.flatMap Piece.symbols).count '[' := by
  induction ps with
  | nil => simp [Op.all]
  | cons piece ps ih =>
      rw [List.map_cons, List.sum_cons, ih]
      cases piece with
      | run op count =>
          cases op <;>
            simp [Op.all, ofPiece, Piece.isRunOf, Piece.symbols, Op.symbol,
              List.count_replicate, List.countP_cons, Nat.mul_add] <;>
            omega
      | opening =>
          simp [Op.all, ofPiece, Piece.isRunOf, Piece.symbols, Op.symbol,
            List.count_cons, Nat.mul_add]
          omega
      | closing =>
          simp [Op.all, ofPiece, Piece.isRunOf, Piece.symbols, Op.symbol,
            List.count_cons]

/-- What there is for the program that a source spells is told from the
source. -/
theorem Share.sum_of_scan {source : String} {p : Program} (s : Share)
    (h : Program.ofTokens (Token.scan source) = .ok p) :
    (p.pieces.map s.ofPiece).sum = s.ofSource source := by
  have hruns : ∀ op, p.pieces.countP (Piece.isRunOf op)
      = runCount op.symbol source.toList := by
    intro op
    rw [Program.pieces_of_scan h, countP_runs]
  have hsymbols : ∀ c, isSymbol c = true →
      (p.pieces.flatMap Piece.symbols).count c = source.toList.count c := by
    intro c hc
    show p.symbols.count c = _
    rw [← Program.symbols_of_scan h, List.count_filter hc]
  rw [sum_ofPiece, hsymbols '[' rfl]
  simp only [hruns, hsymbols _ (isSymbol_symbol _)]
  rfl

end TapeAsm
