/-
Programs as trees. A program is a sequence of runs of one operation and
of loops around a smaller program; the sequence is spelled out in the
type itself, so one plain induction reaches every part of it.

The same tree as a flat sequence of pieces, loops between an opening
and a closing one, is `Program.pieces`; `Program.ofPieces?` reads the
tree back (`ofPieces?_pieces`).
-/
import TapeAsm.Source.Token

namespace TapeAsm

/-- A program: the end, a run of one operation before the rest, or a
loop before the rest. -/
inductive Program where
  | done
  | run (op : Op) (count : Nat) (next : Program)
  | loop (body next : Program)
deriving DecidableEq

namespace Program

/-- The number of loops in a program, at any depth. -/
def loops : Program → Nat
  | done => 0
  | run _ _ next => next.loops
  | loop body next => 1 + body.loops + next.loops

end Program

-- ============================================================= pieces

/-- A part of a program in reading order. -/
inductive Piece where
  | run (op : Op) (count : Nat)
  | opening
  | closing
deriving DecidableEq

namespace Program

/-- The program in reading order, each loop's body between its
brackets. -/
def pieces : Program → List Piece
  | done => []
  | run op count next => .run op count :: next.pieces
  | loop body next => .opening :: (body.pieces ++ .closing :: next.pieces)

/-- The block that a sequence of pieces begins with, then the blocks
that follow each closing piece without an opening one; nothing if an
opening piece stays open. -/
def blocksOf? : List Piece → Option (Program × List Program)
  | [] => some (done, [])
  | .run op count :: ps =>
    (blocksOf? ps).map fun (block, outer) => (run op count block, outer)
  | .closing :: ps =>
    (blocksOf? ps).map fun (block, outer) => (done, block :: outer)
  | .opening :: ps =>
    match blocksOf? ps with
    | some (body, next :: outer) => some (loop body next, outer)
    | _ => none

/-- The program with the given pieces, if each bracket among them has
its partner. -/
def ofPieces? (ps : List Piece) : Option Program :=
  match blocksOf? ps with
  | some (block, []) => some block
  | _ => none

/-- One program after the other. -/
def append : Program → Program → Program
  | done, q => q
  | run op count next, q => run op count (next.append q)
  | loop body next, q => loop body (next.append q)

instance : Append Program := ⟨append⟩

/-- A program behind the end is all there is. -/
@[simp] theorem done_append (q : Program) : done ++ q = q := rfl

@[simp] theorem run_append (op : Op) (count : Nat) (p q : Program) :
    run op count p ++ q = run op count (p ++ q) := rfl

@[simp] theorem loop_append (body p q : Program) :
    loop body p ++ q = loop body (p ++ q) := rfl

/-- The end adds nothing. -/
@[simp] theorem append_done (p : Program) : p ++ done = p := by
  induction p with
  | done => rfl
  | run op count next ih => rw [run_append, ih]
  | loop body next _ ih => rw [loop_append, ih]

/-- A program's pieces in front of others only lengthen the first
block. -/
theorem blocksOf?_pieces_append (p : Program) (ps : List Piece) :
    blocksOf? (p.pieces ++ ps)
      = (blocksOf? ps).map fun (block, outer) => (p ++ block, outer) := by
  induction p generalizing ps with
  | done => simp [pieces]
  | run op count next ih =>
    simp only [pieces, List.cons_append, blocksOf?, ih, Option.map_map]
    rfl
  | loop body next ihBody ihNext =>
    simp only [pieces, List.cons_append, List.append_assoc, blocksOf?,
      ihBody, ihNext, Option.map_map]
    cases blocksOf? ps with
    | none => rfl
    | some found => simp

/-- Reading a program's pieces gives the program back. -/
theorem ofPieces?_pieces (p : Program) : ofPieces? p.pieces = some p := by
  have h := blocksOf?_pieces_append p []
  rw [List.append_nil] at h
  simp [ofPieces?, h, blocksOf?]

end Program

end TapeAsm
