/-
The groups of a token list. Up to the first end of the input, the kinds
of the tokens are a sequence of groups of one kind each; a group of an
operation is a run of it, a group of brackets is as many brackets, and a
group of anything else only keeps its neighbours apart (`grouped`).
Groups do not see where a token stands or what it is made from, and any
token list has them.

That is all that the reader makes of the tokens. A reading without its
places is a `Shape`, and the shape is found from the groups alone
(`Reading.shape?_ofTokens`). So a program has the pieces that the groups
make (`Program.pieces_of_ofTokens`).
-/
import Mathlib.Data.List.SplitBy
import Mathlib.Data.List.TakeWhile
import TapeAsm.Proofs.Source.Reading

namespace TapeAsm

-- ============================================================== kinds

/-- The kinds of the tokens in front of the first end of the input. -/
def Token.content (tokens : List Token) : List TokenKind :=
  (tokens.map kind).takeWhile (· ≠ .endOfInput)

/-- There is no end of the input in front of the first one. -/
theorem Token.endOfInput_notMem_content (tokens : List Token) :
    .endOfInput ∉ content tokens := by
  intro h
  simpa using List.mem_takeWhile_imp h

/-- The piece that a bracket is. -/
def TokenKind.bracket? : TokenKind → Option Piece
  | loopOpen => some .opening
  | loopClose => some .closing
  | op _ => none
  | endOfInput => none
  | other _ => none

/-- The pieces that a group of one kind makes: a run of an operation, or
brackets one by one. -/
def Piece.ofKinds (group : List TokenKind) : List Piece :=
  match group.head? with
  | some (.op op) => [run op group.length]
  | _ => group.filterMap TokenKind.bracket?

/-- A group of an operation is a run. -/
theorem Piece.ofKinds_op (op : Op) (count : Nat) :
    ofKinds (List.replicate (count + 1) (.op op))
      = [run op (count + 1)] := by
  simp [ofKinds, List.replicate_succ]

/-- A group of anything else counts one by one. -/
theorem Piece.ofKinds_of_ne (kind : TokenKind)
    (h : ∀ op, kind ≠ .op op) (count : Nat) :
    ofKinds (List.replicate count kind)
      = (List.replicate count kind).filterMap TokenKind.bracket? := by
  cases count with
  | zero => rfl
  | succ count =>
      cases kind with
      | op op => exact absurd rfl (h op)
      | loopOpen => rfl
      | loopClose => rfl
      | endOfInput => rfl
      | other c => rfl

/-- The pieces of a sequence of kinds, group by group. -/
def grouped (kinds : List TokenKind) : List Piece :=
  (kinds.splitBy (· == ·)).flatMap Piece.ofKinds

@[simp] theorem grouped_nil : grouped [] = [] := rfl

-- ============================================================= groups

/-- Every list begins with a group. -/
theorem exists_leading_group {α : Type} [DecidableEq α] (a : α)
    (l : List α) :
    ∃ count rest, l = List.replicate count a ++ rest
      ∧ rest.head? ≠ some a := by
  induction l with
  | nil => exact ⟨0, [], rfl, nofun⟩
  | cons b l ih =>
      by_cases hb : b = a
      · obtain ⟨count, rest, rfl, hrest⟩ := ih
        exact ⟨count + 1, rest, by rw [hb, List.replicate_succ]; rfl, hrest⟩
      · exact ⟨0, b :: l, rfl, fun h => hb (Option.some.inj h)⟩

/-- The group at the start is taken as a whole. -/
theorem grouped_group {kind : TokenKind} {rest : List TokenKind}
    (h : rest.head? ≠ some kind) (count : Nat) :
    grouped (List.replicate (count + 1) kind ++ rest)
      = Piece.ofKinds (List.replicate (count + 1) kind)
        ++ grouped rest := by
  have hne : List.replicate (count + 1) kind ≠ [] := nofun
  have hgroup : (List.replicate (count + 1) kind).splitBy (· == ·)
      = [List.replicate (count + 1) kind] := by
    refine List.splitBy_of_isChain hne ?_
    exact List.isChain_replicate_of_rel (count + 1) (beq_self_eq_true kind)
  have happend : (List.replicate (count + 1) kind ++ rest).splitBy (· == ·)
      = (List.replicate (count + 1) kind).splitBy (· == ·)
        ++ rest.splitBy (· == ·) := by
    refine List.splitBy_append fun x hx y hy => ?_
    rw [List.eq_of_mem_replicate (List.mem_of_mem_getLast? hx),
      beq_eq_false_iff_ne]
    rintro rfl
    exact h hy
  rw [grouped, happend, hgroup, List.flatMap_append,
    List.flatMap_singleton]
  rfl

/-- A run of an operation, if it does not go on. -/
theorem grouped_run {op : Op} {rest : List TokenKind}
    (h : rest.head? ≠ some (.op op)) (count : Nat) :
    grouped (List.replicate (count + 1) (.op op) ++ rest)
      = .run op (count + 1) :: grouped rest := by
  rw [grouped_group h, Piece.ofKinds_op]
  rfl

/-- An operation is a run of its own in front of anything else. -/
theorem grouped_op {op : Op} {kinds : List TokenKind}
    (h : kinds.head? ≠ some (.op op)) :
    grouped (.op op :: kinds) = .run op 1 :: grouped kinds :=
  grouped_run h 0

/-- An operation joins the run of it that comes next. -/
theorem grouped_op_join {op : Op} {kinds : List TokenKind}
    (h : kinds.head? = some (.op op)) :
    ∃ count ps, grouped kinds = .run op count :: ps
      ∧ grouped (.op op :: kinds) = .run op (count + 1) :: ps := by
  obtain ⟨later, rfl⟩ := List.head?_eq_some_iff.mp h
  obtain ⟨count, rest, rfl, hrest⟩ :=
    exists_leading_group (TokenKind.op op) later
  exact ⟨count + 1, grouped rest, grouped_run hrest count,
    grouped_run hrest (count + 1)⟩

/-- What is no operation counts by itself. -/
theorem grouped_cons (kind : TokenKind) (hkind : ∀ op, kind ≠ .op op)
    (kinds : List TokenKind) :
    grouped (kind :: kinds) = kind.bracket?.toList ++ grouped kinds := by
  obtain ⟨count, rest, rfl, hrest⟩ := exists_leading_group kind kinds
  have hgroups : ∀ n, grouped (List.replicate n kind ++ rest)
      = (List.replicate n kind).filterMap TokenKind.bracket?
        ++ grouped rest := by
    intro n
    cases n with
    | zero => rfl
    | succ n =>
        rw [grouped_group hrest, Piece.ofKinds_of_ne kind hkind]
  rw [hgroups count, ← List.append_assoc]
  refine (hgroups (count + 1)).trans (congrArg (· ++ grouped rest) ?_)
  rw [List.replicate_succ, List.filterMap_cons]
  cases kind.bracket? <;> rfl

theorem grouped_loopOpen (kinds : List TokenKind) :
    grouped (.loopOpen :: kinds) = .opening :: grouped kinds :=
  grouped_cons .loopOpen nofun kinds

theorem grouped_loopClose (kinds : List TokenKind) :
    grouped (.loopClose :: kinds) = .closing :: grouped kinds :=
  grouped_cons .loopClose nofun kinds

theorem grouped_other (c : Char) (kinds : List TokenKind) :
    grouped (.other c :: kinds) = grouped kinds :=
  grouped_cons (.other c) nofun kinds

-- ============================================================== shapes

/-- A reading without its places: the block at the start and what stops
it. -/
inductive Shape where
  | closed (block : Program) (outer : Shape)
  | ended (block : Program)
  | unclosed

namespace Shape

/-- The shape with another block in the place of its block. -/
def mapBlock (f : Program → Program) : Shape → Shape
  | closed block outer => closed (f block) outer
  | ended block => ended (f block)
  | unclosed => unclosed

/-- The shape with an opening bracket in front. -/
def enclose : Shape → Shape
  | closed body outer => outer.mapBlock (.loop body)
  | ended _ => unclosed
  | unclosed => unclosed

/-- The shape that pieces have. -/
def ofPieces : List Piece → Shape
  | [] => ended .done
  | .run op count :: ps => (ofPieces ps).mapBlock (.run op count)
  | .opening :: ps => (ofPieces ps).enclose
  | .closing :: ps => closed .done (ofPieces ps)

/-- The pieces of a shape, unless a bracket stays open in it. -/
def pieces? : Shape → Option (List Piece)
  | closed block outer =>
    outer.pieces?.map fun ps => block.pieces ++ .closing :: ps
  | ended block => some block.pieces
  | unclosed => none

theorem mapBlock_mapBlock (f g : Program → Program) (s : Shape) :
    (s.mapBlock f).mapBlock g = s.mapBlock fun b => g (f b) := by
  cases s <;> rfl

/-- What is put in front of the block is put in front of the pieces. -/
theorem pieces?_mapBlock {f : Program → Program} {front : List Piece}
    (h : ∀ b, (f b).pieces = front ++ b.pieces) (s : Shape) :
    (s.mapBlock f).pieces? = s.pieces?.map (front ++ ·) := by
  cases s with
  | closed block outer =>
      simp only [mapBlock, pieces?, h, Option.map_map]
      congr 1
      funext ps
      simp
  | ended block => simp [mapBlock, pieces?, h]
  | unclosed => rfl

/-- Nothing of the pieces is lost in their shape. -/
theorem pieces?_ofPieces {ps qs : List Piece}
    (h : (ofPieces ps).pieces? = some qs) : qs = ps := by
  induction ps generalizing qs with
  | nil =>
      cases h
      rfl
  | cons piece ps ih =>
      cases piece with
      | run op count =>
          have hfront : ∀ b, (Program.run op count b).pieces
              = [.run op count] ++ b.pieces := fun _ => rfl
          rw [ofPieces, pieces?_mapBlock hfront, Option.map_eq_some_iff] at h
          obtain ⟨qs, hqs, rfl⟩ := h
          rw [ih hqs]
          rfl
      | opening =>
          rw [ofPieces] at h
          cases hs : ofPieces ps with
          | closed body outer =>
              have hfront : ∀ b, (Program.loop body b).pieces
                  = (.opening :: (body.pieces ++ [.closing])) ++ b.pieces := by
                intro b
                simp [Program.pieces]
              rw [hs, enclose, pieces?_mapBlock hfront,
                Option.map_eq_some_iff] at h
              obtain ⟨rest, hrest, rfl⟩ := h
              have hps : body.pieces ++ .closing :: rest = ps := by
                refine ih ?_
                rw [hs, pieces?, hrest]
                rfl
              rw [← hps]
              simp
          | ended block => rw [hs] at h; cases h
          | unclosed => rw [hs] at h; cases h
      | closing =>
          rw [ofPieces, pieces?, Option.map_eq_some_iff] at h
          obtain ⟨qs, hqs, rfl⟩ := h
          rw [ih hqs]
          rfl

end Shape

namespace Reading

/-- A reading without its places; there is none of a list that is over
too soon. -/
def shape? : Reading → Option Shape
  | closed block _ _ outer => outer.shape?.map (.closed block)
  | ended block _ _ => some (.ended block)
  | unclosed .. => some .unclosed
  | exhausted => none

theorem shape?_mapBlock (f : Program → Program) (r : Reading) :
    (r.mapBlock f).shape? = r.shape?.map (·.mapBlock f) := by
  cases r with
  | closed block place stop outer =>
      simp only [mapBlock, shape?, Option.map_map]
      rfl
  | ended block place stop => rfl
  | unclosed opened place stop => rfl
  | exhausted => rfl

theorem shape?_enclose (opened : Position) (r : Reading) :
    (r.enclose opened).shape? = r.shape?.map Shape.enclose := by
  cases r with
  | closed body place stop outer =>
      simp only [enclose, shape?_mapBlock, shape?, Option.map_map]
      rfl
  | ended block place stop => rfl
  | unclosed opened' place stop => rfl
  | exhausted => rfl

/-- The first kind of a token list is that of its first token, unless
this is the end. -/
theorem startsWith_eq (op : Op) (tokens : List Token) :
    startsWith op tokens
      = decide ((Token.content tokens).head? = some (.op op)) := by
  cases tokens with
  | nil => rfl
  | cons token rest =>
      rw [startsWith, Token.content, List.map_cons, decide_eq_decide]
      cases token.kind <;> simp

/-- The reading of a token list with an end has the shape of the groups
in front of the end. -/
theorem shape?_ofTokens {tokens : List Token}
    (h : .endOfInput ∈ tokens.map Token.kind) :
    (ofTokens tokens).shape?
      = some (.ofPieces (grouped (Token.content tokens))) := by
  induction tokens with
  | nil => cases h
  | cons token rest ih =>
      by_cases hend : token.kind = .endOfInput
      · simp [ofTokens, hend, shape?, Token.content, Shape.ofPieces]
      rw [List.map_cons, List.mem_cons] at h
      have hrest := ih (h.resolve_left (Ne.symm hend))
      have hcontent : Token.content (token :: rest)
          = token.kind :: Token.content rest :=
        List.takeWhile_cons_of_pos (decide_eq_true hend)
      rw [hcontent]
      cases hkind : token.kind with
      | op op =>
          simp only [ofTokens, hkind, shape?_mapBlock, hrest,
            startsWith_eq, Option.map_some]
          by_cases hjoin : (Token.content rest).head? = some (.op op)
          · -- the block begins with a run, and that gets longer
            obtain ⟨count, ps, hshort, hlong⟩ := grouped_op_join hjoin
            rw [hshort, hlong, Shape.ofPieces, Shape.ofPieces,
              Shape.mapBlock_mapBlock, decide_eq_true hjoin]
            rfl
          · rw [grouped_op hjoin, Shape.ofPieces,
              decide_eq_false hjoin, Program.precede_alone]
      | loopOpen =>
          rw [grouped_loopOpen, Shape.ofPieces]
          simp only [ofTokens, hkind, shape?_enclose, hrest,
            Option.map_some]
      | loopClose =>
          rw [grouped_loopClose, Shape.ofPieces]
          simp only [ofTokens, hkind, shape?, hrest, Option.map_some]
      | endOfInput => exact absurd hkind hend
      | other c =>
          rw [grouped_other]
          simp only [ofTokens, hkind, hrest]

/-- A token list without an end is over too soon. -/
theorem shape?_eq_none {tokens : List Token}
    (h : .endOfInput ∉ tokens.map Token.kind) :
    (ofTokens tokens).shape? = none := by
  induction tokens with
  | nil => rfl
  | cons token rest ih =>
      rw [List.map_cons, List.mem_cons, not_or] at h
      have hrest := ih h.2
      cases hkind : token.kind with
      | op op =>
          simp only [ofTokens, hkind, shape?_mapBlock, hrest]
          rfl
      | loopOpen =>
          simp only [ofTokens, hkind, shape?_enclose, hrest]
          rfl
      | loopClose =>
          simp only [ofTokens, hkind, shape?, hrest]
          rfl
      | endOfInput => exact absurd hkind.symm h.1
      | other c => simp only [ofTokens, hkind, hrest]

end Reading

-- =========================================================== programs

/-- A program has the pieces that the groups of its tokens make. -/
theorem Program.pieces_of_ofTokens {tokens : List Token} {p : Program}
    (h : ofTokens tokens = .ok p) :
    p.pieces = grouped (Token.content tokens) := by
  obtain ⟨place, stop, hr⟩ := ofTokens_eq_ok h
  have hshape : (Reading.ofTokens tokens).shape? = some (.ended p) := by
    rw [hr]
    rfl
  have hend : .endOfInput ∈ tokens.map Token.kind := by
    by_contra hend
    rw [Reading.shape?_eq_none hend] at hshape
    cases hshape
  rw [Reading.shape?_ofTokens hend] at hshape
  refine Shape.pieces?_ofPieces ?_
  rw [Option.some.inj hshape]
  rfl

end TapeAsm
