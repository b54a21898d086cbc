/-
How a program accounts for the tokens that it is read from. Spelled out
again, run by run, it has the kinds of the tokens in front of the first
end of the input, those without a meaning left out; and its runs are the
longest stretches of one operation among these tokens (`Accounts`). So
every token is in one place of the tree, and two neighbouring runs of
one operation have something without a meaning between them.

A program has the pieces of the groups of its tokens
(`pieces_of_ofTokens`), so the first two follow group by group. For
neighbouring runs the groups are cut at both (`exists_group_of_run`):
what lies between the cuts makes no pieces, and if nothing lies between
them, two groups in a row are of one kind, which no groups are.
-/
import Mathlib.Data.List.SplitBy
import TapeAsm.Proofs.Source.Groups

namespace TapeAsm

-- ========================================================= vocabulary

/-- Whether a token has no meaning in the language. -/
def TokenKind.isOther : TokenKind → Bool
  | op _ => false
  | loopOpen => false
  | loopClose => false
  | endOfInput => false
  | other _ => true

/-- The kinds of tokens that spell a program, each run token by token
and each loop's body between its brackets. -/
def Program.kinds : Program → List TokenKind
  | done => []
  | run op count next => List.replicate count (.op op) ++ next.kinds
  | loop body next => .loopOpen :: (body.kinds ++ .loopClose :: next.kinds)

/-- The runs of a program in reading order, each with its length. -/
def Program.operations : Program → List (Op × Nat)
  | done => []
  | run op count next => (op, count) :: next.operations
  | loop body next => body.operations ++ next.operations

/-- The run that a group of one kind is, with its length, if its kind is
an operation. -/
def Op.run? (group : List TokenKind) : Option (Op × Nat) :=
  match group.head? with
  | some (.op op) => some (op, group.length)
  | _ => none

/-- The program accounts for tokens of these kinds. -/
structure Accounts (kinds : List TokenKind) (p : Program) : Prop where
  /-- Every token with a meaning is in the program, and nothing else. -/
  spelled : p.kinds = kinds.filter fun kind => !kind.isOther
  /-- The runs are the longest stretches of one operation. -/
  longest : p.operations = (kinds.splitBy (· == ·)).filterMap Op.run?
  /-- Two runs in a row are neighbours in one block, as there is no
  bracket between them. Each is a stretch of the tokens, the tokens in
  front and behind make the other pieces, and there are only tokens
  without a meaning between the two, one at least if they are of one
  operation. -/
  apart : ∀ before op m op' n after,
    p.pieces = before ++ .run op m :: .run op' n :: after →
    ∃ front gap back,
      kinds = front ++ (List.replicate m (.op op)
          ++ (gap ++ (List.replicate n (.op op') ++ back)))
        ∧ grouped front = before ∧ grouped back = after
        ∧ (∀ kind ∈ gap, kind.isOther = true)
        ∧ (op = op' → gap ≠ [])

-- ============================================================= pieces

/-- The kinds of tokens that spell a piece. -/
def Piece.kinds : Piece → List TokenKind
  | run op count => List.replicate count (.op op)
  | opening => [.loopOpen]
  | closing => [.loopClose]

/-- The run that a piece is. -/
def Piece.run? : Piece → Option (Op × Nat)
  | run op count => some (op, count)
  | opening => none
  | closing => none

theorem Program.kinds_eq (p : Program) :
    p.kinds = p.pieces.flatMap Piece.kinds := by
  induction p with
  | done => rfl
  | run op count next ih =>
      rw [kinds, ih]
      rfl
  | loop body next ihBody ih =>
      rw [kinds, ihBody, ih]
      simp [pieces, Piece.kinds]

theorem Program.operations_eq (p : Program) :
    p.operations = p.pieces.filterMap Piece.run? := by
  induction p with
  | done => rfl
  | run op count next ih =>
      rw [operations, ih]
      rfl
  | loop body next ihBody ih =>
      rw [operations, ihBody, ih]
      simp [pieces, Piece.run?, List.filterMap_cons]

/-- The pieces of a group spell it, unless it has no meaning. -/
theorem Piece.kinds_ofKinds {kind : TokenKind} (h : kind ≠ .endOfInput)
    (count : Nat) :
    (ofKinds (List.replicate (count + 1) kind)).flatMap kinds
      = (List.replicate (count + 1) kind).filter
          fun kind => !kind.isOther := by
  cases kind with
  | op op => simp [ofKinds_op, kinds, TokenKind.isOther]
  | loopOpen =>
      have hbrackets : (List.replicate (count + 1) .loopOpen).filterMap
          TokenKind.bracket? = List.replicate (count + 1) .opening :=
        List.filterMap_replicate_of_some rfl
      rw [ofKinds_of_ne .loopOpen nofun, hbrackets]
      rw [List.flatMap_replicate, kinds, List.flatten_replicate_singleton]
      simp [TokenKind.isOther]
  | loopClose =>
      have hbrackets : (List.replicate (count + 1) .loopClose).filterMap
          TokenKind.bracket? = List.replicate (count + 1) .closing :=
        List.filterMap_replicate_of_some rfl
      rw [ofKinds_of_ne .loopClose nofun, hbrackets]
      rw [List.flatMap_replicate, kinds, List.flatten_replicate_singleton]
      simp [TokenKind.isOther]
  | endOfInput => exact absurd rfl h
  | other c =>
      rw [ofKinds_of_ne (.other c) nofun]
      simp [TokenKind.isOther, TokenKind.bracket?]

/-- There is a run among the pieces of a group if the group is one. -/
theorem Piece.run?_ofKinds (kind : TokenKind) (count : Nat) :
    (ofKinds (List.replicate (count + 1) kind)).filterMap run?
      = (Op.run? (List.replicate (count + 1) kind)).toList := by
  by_cases hop : ∃ op, kind = .op op
  · obtain ⟨op, rfl⟩ := hop
    rw [ofKinds_op]
    simp [run?, Op.run?, List.replicate_succ]
  · have hne : ∀ op, kind ≠ .op op := fun op h => hop ⟨op, h⟩
    have hgroup : Op.run? (List.replicate (count + 1) kind) = none := by
      cases kind with
      | op op => exact absurd rfl (hne op)
      | loopOpen => rfl
      | loopClose => rfl
      | endOfInput => rfl
      | other c => rfl
    have hbracket : kind.bracket?.bind run? = none := by
      cases kind <;> rfl
    rw [ofKinds_of_ne kind hne, List.filterMap_filterMap, hgroup]
    exact List.filterMap_replicate_of_none hbracket

-- ============================================================= groups

/-- A group is of one kind. -/
theorem exists_replicate_of_mem_splitBy {α : Type} [DecidableEq α]
    {l group : List α} (h : group ∈ l.splitBy (· == ·)) :
    ∃ a count, group = List.replicate (count + 1) a := by
  have hchain := List.isChain_of_mem_splitBy h
  cases group with
  | nil => exact absurd h (List.nil_notMem_splitBy _ _)
  | cons a group =>
      simp only [beq_iff_eq] at hchain
      refine ⟨a, group.length, ?_⟩
      rw [List.isChain_cons_eq_iff_eq_replicate.mp hchain]
      simp [List.replicate_succ]

/-- Groups in a row are the groups of what they are made of. -/
theorem grouped_flatten {kinds : List TokenKind}
    {front groups back : List (List TokenKind)}
    (h : kinds.splitBy (· == ·) = front ++ (groups ++ back)) :
    grouped groups.flatten = groups.flatMap Piece.ofKinds := by
  have hmem : ∀ group ∈ groups, group ∈ kinds.splitBy (· == ·) := by
    intro group hgroup
    simp [h, hgroup]
  have hchain := List.isChain_getLast_head_splitBy (· == ·) kinds
  rw [h] at hchain
  have hsplit : groups.flatten.splitBy (· == ·) = groups := by
    refine List.splitBy_flatten ?_ ?_ ?_
    · exact fun hnil => List.nil_notMem_splitBy _ _ (hmem _ hnil)
    · exact fun group hgroup =>
        List.isChain_of_mem_splitBy (hmem group hgroup)
    · exact hchain.right_of_append.left_of_append
  rw [grouped, hsplit]

/-- An element of what a list is mapped to comes from an element of the
list. -/
theorem exists_cut_of_flatMap {α β : Type} {f : α → List β} {l : List α}
    {before after : List β} {b : β}
    (h : l.flatMap f = before ++ b :: after) :
    ∃ front a back own rest, l = front ++ a :: back
      ∧ f a = own ++ b :: rest
      ∧ before = front.flatMap f ++ own
      ∧ after = rest ++ back.flatMap f := by
  induction l generalizing before with
  | nil => cases before <;> cases h
  | cons a l ih =>
      rw [List.flatMap_cons, List.append_eq_append_iff] at h
      rcases h with ⟨later, rfl, hlater⟩ | ⟨own, hown, hlater⟩
      · obtain ⟨front, a', back, own, rest, rfl, ha', rfl, rfl⟩ := ih hlater
        exact ⟨a :: front, a', back, own, rest, rfl, ha',
          (List.append_assoc ..).symm, rfl⟩
      · cases own with
        | nil =>
            obtain ⟨front, a', back, own, rest, rfl, ha', hbefore, rfl⟩ :=
              ih (show _ = [] ++ b :: after from hlater.symm)
            refine ⟨a :: front, a', back, own, rest, rfl, ha', ?_, rfl⟩
            rw [List.flatMap_cons, List.append_assoc, ← hbefore, hown]
            simp
        | cons b' own =>
            obtain ⟨rfl, rfl⟩ := List.cons.inj hlater
            exact ⟨[], a, l, before, own, rfl, hown, rfl, rfl⟩

/-- A run among the pieces of groups is one of the groups. -/
theorem exists_group_of_run {groups : List (List TokenKind)}
    (hgroups : ∀ group ∈ groups,
      ∃ kind count, group = List.replicate (count + 1) kind)
    {before after : List Piece} {op : Op} {n : Nat}
    (h : groups.flatMap Piece.ofKinds = before ++ .run op n :: after) :
    ∃ front back, groups = front ++ List.replicate n (.op op) :: back
      ∧ front.flatMap Piece.ofKinds = before
      ∧ back.flatMap Piece.ofKinds = after := by
  obtain ⟨front, group, back, own, rest, rfl, hgroup, rfl, rfl⟩ :=
    exists_cut_of_flatMap h
  obtain ⟨kind, count, rfl⟩ := hgroups group (by simp)
  by_cases hop : ∃ op, kind = .op op
  · obtain ⟨op', rfl⟩ := hop
    rw [Piece.ofKinds_op] at hgroup
    rcases List.singleton_eq_append_iff.mp hgroup with
      ⟨rfl, hrun⟩ | ⟨-, hnil⟩
    · cases hrun
      exact ⟨front, back, rfl, (List.append_nil _).symm, rfl⟩
    · cases hnil
  · have hmem : .run op n
        ∈ Piece.ofKinds (List.replicate (count + 1) kind) := by
      simp [hgroup]
    rw [Piece.ofKinds_of_ne kind fun op h => hop ⟨op, h⟩,
      List.mem_filterMap] at hmem
    obtain ⟨kind', -, hbracket⟩ := hmem
    cases kind' <;> cases hbracket

/-- A group that makes no pieces has no meaning, or it is an end of the
input. -/
theorem isOther_of_ofKinds_eq_nil {kind : TokenKind} {count : Nat}
    (h : Piece.ofKinds (List.replicate (count + 1) kind) = [])
    (hend : kind ≠ .endOfInput) : kind.isOther = true := by
  have hnil := Piece.kinds_ofKinds hend count
  rw [h, List.flatMap_nil, eq_comm, List.filter_eq_nil_iff] at hnil
  simpa using hnil kind (by simp)

-- ============================================================ accounts

/-- A program that is made of the groups of some kinds spells them. -/
theorem Program.kinds_eq_filter {kinds : List TokenKind} {p : Program}
    (hp : p.pieces = grouped kinds) (hend : .endOfInput ∉ kinds) :
    p.kinds = kinds.filter fun kind => !kind.isOther := by
  have hgroup : ∀ group ∈ kinds.splitBy (· == ·),
      (Piece.ofKinds group).flatMap Piece.kinds
        = group.filter fun kind => !kind.isOther := by
    intro group hgroup
    obtain ⟨kind, count, rfl⟩ := exists_replicate_of_mem_splitBy hgroup
    refine Piece.kinds_ofKinds ?_ count
    rintro rfl
    refine hend ?_
    rw [← List.flatten_splitBy (· == ·) kinds]
    exact List.mem_flatten.mpr ⟨_, hgroup, by simp⟩
  calc p.kinds
      = (kinds.splitBy (· == ·)).flatMap fun group =>
          (Piece.ofKinds group).flatMap Piece.kinds := by
        rw [kinds_eq, hp, grouped, List.flatMap_assoc]
    _ = (kinds.splitBy (· == ·)).flatMap
          (List.filter fun kind => !kind.isOther) :=
        List.flatMap_congr hgroup
    _ = kinds.filter fun kind => !kind.isOther := by
        rw [List.flatMap_def, ← List.filter_flatten, List.flatten_splitBy]

/-- The runs among the groups are those of the program. -/
theorem Program.operations_eq_filterMap {kinds : List TokenKind}
    {p : Program} (hp : p.pieces = grouped kinds) :
    p.operations = (kinds.splitBy (· == ·)).filterMap Op.run? := by
  have hgroup : ∀ group ∈ kinds.splitBy (· == ·),
      (Piece.ofKinds group).filterMap Piece.run?
        = (Op.run? group).toList := by
    intro group hgroup
    obtain ⟨kind, count, rfl⟩ := exists_replicate_of_mem_splitBy hgroup
    exact Piece.run?_ofKinds kind count
  calc p.operations
      = (kinds.splitBy (· == ·)).flatMap fun group =>
          (Piece.ofKinds group).filterMap Piece.run? := by
        rw [operations_eq, hp, grouped, List.filterMap_flatMap]
    _ = (kinds.splitBy (· == ·)).flatMap fun group =>
          (Op.run? group).toList := List.flatMap_congr hgroup
    _ = (kinds.splitBy (· == ·)).filterMap Op.run? :=
        (List.filterMap_eq_flatMap_toList ..).symm

/-- Two groups in a row are of two kinds. -/
theorem ne_of_adjacent_groups {kinds : List TokenKind}
    {front back : List (List TokenKind)} {kind kind' : TokenKind}
    {m n : Nat}
    (h : kinds.splitBy (· == ·)
      = front ++ List.replicate m kind :: List.replicate n kind' :: back) :
    kind ≠ kind' := by
  rintro rfl
  have hchain := List.isChain_getLast_head_splitBy (· == ·) kinds
  rw [h] at hchain
  obtain ⟨hne, hne', hdiffer⟩ :=
    List.IsChain.rel hchain.right_of_append
  simp at hdiffer

/-- Two runs in a row have only tokens without a meaning between them,
and one at least if they are of one operation. -/
theorem exists_gap_of_runs {kinds : List TokenKind}
    (hend : .endOfInput ∉ kinds) {before after : List Piece} {op op' : Op}
    {m n : Nat}
    (h : grouped kinds = before ++ .run op m :: .run op' n :: after) :
    ∃ front gap back,
      kinds = front ++ (List.replicate m (.op op)
          ++ (gap ++ (List.replicate n (.op op') ++ back)))
        ∧ grouped front = before ∧ grouped back = after
        ∧ (∀ kind ∈ gap, kind.isOther = true)
        ∧ (op = op' → gap ≠ []) := by
  have hgroups : ∀ group ∈ kinds.splitBy (· == ·),
      ∃ kind count, group = List.replicate (count + 1) kind :=
    fun group hgroup => exists_replicate_of_mem_splitBy hgroup
  obtain ⟨front, later, hcut, hfront, hlater⟩ :=
    exists_group_of_run hgroups h
  have hgroupsLater : ∀ group ∈ later,
      ∃ kind count, group = List.replicate (count + 1) kind := by
    intro group hgroup
    refine hgroups group ?_
    simp [hcut, hgroup]
  have hfirst : later.flatMap Piece.ofKinds
      = [] ++ .run op' n :: after := hlater
  obtain ⟨gap, back, rfl, hgap, hback⟩ :=
    exists_group_of_run hgroupsLater hfirst
  have hinFront : kinds.splitBy (· == ·)
      = [] ++ (front ++ List.replicate m (.op op)
          :: (gap ++ List.replicate n (.op op') :: back)) := hcut
  have hinBack : kinds.splitBy (· == ·)
      = (front ++ List.replicate m (.op op)
          :: (gap ++ [List.replicate n (.op op')])) ++ (back ++ []) := by
    simp [hcut]
  have hkinds : kinds = front.flatten ++ (List.replicate m (.op op)
      ++ (gap.flatten ++ (List.replicate n (.op op') ++ back.flatten))) := by
    rw [← List.flatten_splitBy (· == ·) kinds, hcut]
    simp
  refine ⟨front.flatten, gap.flatten, back.flatten, hkinds,
    (grouped_flatten hinFront).trans hfront,
    (grouped_flatten hinBack).trans hback, ?_, ?_⟩
  · intro kind hkind
    obtain ⟨group, hgroup, hmem⟩ := List.mem_flatten.mp hkind
    obtain ⟨kind', count, rfl⟩ := hgroupsLater group (by simp [hgroup])
    obtain rfl := List.eq_of_mem_replicate hmem
    refine isOther_of_ofKinds_eq_nil
      (List.flatMap_eq_nil_iff.mp hgap _ hgroup) ?_
    rintro rfl
    refine hend ?_
    simp [hkinds, hkind]
  · rintro rfl hnil
    cases gap with
    | nil => exact ne_of_adjacent_groups hcut rfl
    | cons group gap =>
        obtain ⟨kind, count, rfl⟩ := hgroupsLater group (by simp)
        cases hnil

/-- A program accounts for its tokens. -/
theorem Program.accounts_of_ofTokens {tokens : List Token} {p : Program}
    (h : ofTokens tokens = .ok p) : Accounts (Token.content tokens) p := by
  have hp := pieces_of_ofTokens h
  have hend := Token.endOfInput_notMem_content tokens
  refine ⟨kinds_eq_filter hp hend, operations_eq_filterMap hp, ?_⟩
  intro before op m op' n after hpieces
  rw [hp] at hpieces
  exact exists_gap_of_runs hend hpieces

/-- What stands behind the end is not accounted for. -/
theorem Program.accounts_of_ofTokens_end :
    ofTokens [⟨.op .increment, .start⟩, ⟨.other '#', .start⟩,
          ⟨.op .increment, .start⟩, ⟨.op .increment, .start⟩,
          ⟨.endOfInput, .start⟩, ⟨.loopClose, .start⟩]
        = .ok (.run .increment 1 (.run .increment 2 .done))
      ∧ Accounts [.op .increment, .other '#', .op .increment,
          .op .increment] (.run .increment 1 (.run .increment 2 .done)) := by
  have h : ofTokens [⟨.op .increment, .start⟩, ⟨.other '#', .start⟩,
        ⟨.op .increment, .start⟩, ⟨.op .increment, .start⟩,
        ⟨.endOfInput, .start⟩, ⟨.loopClose, .start⟩]
      = .ok (.run .increment 1 (.run .increment 2 .done)) := rfl
  exact ⟨h, accounts_of_ofTokens h⟩

end TapeAsm
