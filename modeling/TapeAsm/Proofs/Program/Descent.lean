/-
The reader as a recursive descent. A descent goes over the tokens once
as well, but from the first to the last, with one cursor: it passes a
token without meaning, takes a run of an operation as far as it goes,
and calls itself for the body of a loop, behind which it wants a closing
bracket (`Descent.blockStep`). What is around a block is decided after
it (`Descent.programStep`).

The reader takes these steps (`Descent.blockStep_block`,
`Descent.programStep_block`), and whatever takes them is the reader
(`Descent.eq_block_of_step`), since no call gets a longer list than the
call before it. Two of the places where a descent can fail are never
come to: behind a block there always is a token, and it is a closing
bracket or the end of the input (`Descent.closeLoop_of_block`).

Reading from the last token to the first, a reading knows its stop, and
behind a closing bracket the reading of the rest (`Reading.StopsIn`);
that is all that the steps of the descent ask of it.
-/
import TapeAsm.Program.Reading

namespace TapeAsm

/-- An operation that joins nothing is a run of its own. -/
theorem Program.precede_alone (op : Op) :
    precede op false = run op 1 := by
  funext b
  cases b <;> rfl

namespace Reading

-- =============================================================== runs

theorem mapBlock_mapBlock (f g : Program → Program) (r : Reading) :
    (r.mapBlock f).mapBlock g = r.mapBlock fun b => g (f b) := by
  cases r <;> rfl

/-- A run of an operation in front of tokens that it does not join. -/
theorem ofTokens_run {op : Op} {front rest : List Token}
    (hfront : ∀ token ∈ front, token.kind = .op op) (hne : front ≠ [])
    (hrest : startsWith op rest = false) :
    ofTokens (front ++ rest)
      = (ofTokens rest).mapBlock (.run op front.length) := by
  induction front with
  | nil => exact absurd rfl hne
  | cons token front ih =>
      obtain ⟨hkind, hfront⟩ := List.forall_mem_cons.mp hfront
      rw [List.cons_append, ofTokens, hkind]
      cases front with
      | nil =>
          show (ofTokens rest).mapBlock (.precede op (startsWith op rest))
            = _
          rw [hrest, Program.precede_alone]
          rfl
      | cons token' front =>
          have hjoins : startsWith op (token' :: front ++ rest) = true :=
            decide_eq_true (hfront token' List.mem_cons_self)
          show (ofTokens (token' :: front ++ rest)).mapBlock
            (.precede op (startsWith op (token' :: front ++ rest))) = _
          rw [hjoins, ih hfront (List.cons_ne_nil _ _), mapBlock_mapBlock]
          rfl

/-- A list that begins with an operation begins with a run of it, as
long as it goes. -/
theorem ofTokens_leading_run (op : Op) (position : Position)
    (rest : List Token) :
    let all : List Token := ⟨.op op, position⟩ :: rest
    let joins (token : Token) : Bool := token.kind = .op op
    ofTokens all = (ofTokens (all.dropWhile joins)).mapBlock
      (.run op (all.takeWhile joins).length) := by
  intro all joins
  have hfront : ∀ token ∈ all.takeWhile joins, token.kind = .op op :=
    fun token h => of_decide_eq_true
      (List.all_eq_true.mp List.all_takeWhile token h)
  have hne : all.takeWhile joins ≠ [] := by
    simp [all, joins]
  have hrest : startsWith op (all.dropWhile joins) = false := by
    have hhead := List.head?_dropWhile_not joins all
    cases hdrop : all.dropWhile joins with
    | nil => rfl
    | cons token behind =>
        rw [hdrop] at hhead
        exact hhead
  have hrun := ofTokens_run hfront hne hrest
  rw [List.takeWhile_append_dropWhile] at hrun
  exact hrun

-- ============================================================== stops

/-- The stop of a reading is a part of these tokens, and the token at
its front is the one that the reading says. Behind a closing bracket the
reading goes on. -/
def StopsIn (tokens : List Token) : Reading → Prop
  | closed _ place stop outer => ∃ behind,
    stop = ⟨.loopClose, place⟩ :: behind ∧ stop <:+ tokens
      ∧ outer = ofTokens behind
  | ended _ place stop => ∃ behind,
    stop = ⟨.endOfInput, place⟩ :: behind ∧ stop <:+ tokens
  | unclosed _ place stop => ∃ behind,
    stop = ⟨.endOfInput, place⟩ :: behind ∧ stop <:+ tokens
  | exhausted => True

variable {tokens tokens' : List Token} {r : Reading}

/-- What is in front of a stop does not matter to it. -/
theorem StopsIn.mapBlock (h : r.StopsIn tokens) (f : Program → Program) :
    (r.mapBlock f).StopsIn tokens := by
  cases r <;> exact h

/-- More tokens in front leave the stop where it is. -/
theorem StopsIn.widen (h : r.StopsIn tokens) (hsub : tokens <:+ tokens') :
    r.StopsIn tokens' := by
  cases r with
  | closed block place stop outer =>
      obtain ⟨behind, hstop, hin, houter⟩ := h
      exact ⟨behind, hstop, hin.trans hsub, houter⟩
  | ended block place stop =>
      obtain ⟨behind, hstop, hin⟩ := h
      exact ⟨behind, hstop, hin.trans hsub⟩
  | unclosed opened place stop =>
      obtain ⟨behind, hstop, hin⟩ := h
      exact ⟨behind, hstop, hin.trans hsub⟩
  | exhausted => trivial

/-- Every reading stops at a token of its list. Where it goes on behind
a bracket, it does so with fewer tokens. -/
theorem stopsIn_ofTokens (tokens : List Token) :
    (ofTokens tokens).StopsIn tokens := by
  induction hlength : tokens.length using Nat.strongRecOn
    generalizing tokens with
  | _ length ih =>
      cases tokens with
      | nil => trivial
      | cons token rest =>
          obtain ⟨kind, position⟩ := token
          rw [List.length_cons] at hlength
          have hsub : rest <:+ ⟨kind, position⟩ :: rest :=
            List.suffix_cons ..
          have hrest : (ofTokens rest).StopsIn rest :=
            ih _ (by omega) rest rfl
          cases kind with
          | op op => exact (hrest.mapBlock _).widen hsub
          | other c => exact hrest.widen hsub
          | loopClose => exact ⟨rest, rfl, List.suffix_rfl, rfl⟩
          | endOfInput => exact ⟨rest, rfl, List.suffix_rfl⟩
          | loopOpen =>
              show ((ofTokens rest).enclose position).StopsIn _
              cases hr : ofTokens rest with
              | closed body place stop outer =>
                  rw [hr] at hrest
                  obtain ⟨behind, rfl, hin, rfl⟩ := hrest
                  have hshort := hin.length_le
                  rw [List.length_cons] at hshort
                  have hbehind : (ofTokens behind).StopsIn behind :=
                    ih _ (by omega) behind rfl
                  exact (hbehind.mapBlock _).widen
                    ((List.suffix_cons ..).trans (hin.trans hsub))
              | ended block place stop =>
                  rw [hr] at hrest
                  exact hrest.widen hsub
              | unclosed opened place stop =>
                  rw [hr] at hrest
                  exact hrest.widen hsub
              | exhausted => trivial

/-- A reading leaves the tokens from its stop on. -/
theorem stop_suffix (tokens : List Token) :
    (ofTokens tokens).stop <:+ tokens := by
  have h := stopsIn_ofTokens tokens
  cases hr : ofTokens tokens with
  | closed block place stop outer =>
      rw [hr] at h
      obtain ⟨-, -, hin, -⟩ := h
      exact hin
  | ended block place stop =>
      rw [hr] at h
      obtain ⟨-, -, hin⟩ := h
      exact hin
  | unclosed opened place stop =>
      rw [hr] at h
      obtain ⟨-, -, hin⟩ := h
      exact hin
  | exhausted => exact List.nil_suffix

end Reading

-- ============================================================ descent

/-- What a descent does with a cursor. -/
abbrev Descent := ExceptT SyntaxError (StateM Cursor)

namespace Descent

/-- Passes a token. -/
def skip : Descent Unit :=
  modify fun c => { c with rest := c.rest.tail }

/-- Takes a run of an operation and counts it. -/
def takeRun (op : Op) : Descent Nat := do
  let c ← get
  let joins (token : Token) : Bool := token.kind = .op op
  set { c with rest := c.rest.dropWhile joins }
  return (c.rest.takeWhile joins).length

/-- Passes the closing bracket of a loop that is opened at a place. -/
def closeLoop (opened : Position) : Descent Unit := do
  let c ← get
  match c.rest with
  | [] => throw (.noEndMarker c.index)
  | token :: _ =>
    if token.kind = .loopClose then skip
    else throw (.unclosedLoop opened token.kind token.position)

/-- Reads a block, with `read` for the blocks in it and for what is
behind its first part. -/
def blockStep (read : Descent Program) : Descent Program := do
  let c ← get
  match c.rest with
  | [] => throw (.noEndMarker c.index)
  | token :: _ =>
    match token.kind with
    | .other _ =>
      skip
      read
    | .endOfInput => return .done
    | .loopClose => return .done
    | .loopOpen =>
      skip
      let body ← read
      closeLoop token.position
      return .loop body (← read)
    | .op op =>
      let count ← takeRun op
      return .run op count (← read)

/-- Reads a whole program, with `read` for the block that it is. -/
def programStep (read : Descent Program) : Descent Program := do
  let p ← read
  let c ← get
  match c.rest with
  | [] => throw (.noEndMarker c.index)
  | token :: _ =>
    if token.kind = .loopClose then throw (.strayClose token.position)
    else return p

/-- The reader of blocks. -/
def block : Descent Program := ExceptT.mk Cursor.readBlock

/-- The reader of programs. -/
def program : Descent Program := ExceptT.mk Cursor.readProgram

-- ============================================================== steps

section Results

variable {α β : Type} {d d' : Descent α} {f : α → Descent β}
  {c c' : Cursor}

theorem bind_of_ok {a : α} (h : d c = (.ok a, c')) :
    (d >>= f) c = f a c' := by
  simp only [bind, ExceptT.bind, ExceptT.mk, StateT.bind, h]
  rfl

theorem bind_of_error {e : SyntaxError} (h : d c = (.error e, c')) :
    (d >>= f) c = (.error e, c') := by
  simp only [bind, ExceptT.bind, ExceptT.mk, StateT.bind, h]
  rfl

/-- What comes first matters by what it does with this one cursor. -/
theorem bind_congr (h : d c = d' c) : (d >>= f) c = (d' >>= f) c := by
  simp only [bind, ExceptT.bind, ExceptT.mk, StateT.bind, h]

end Results

theorem block_eq (tokens rest : List Token) :
    block ⟨tokens, rest⟩
      = ((Reading.ofTokens rest).block tokens.length,
        ⟨tokens, (Reading.ofTokens rest).stop⟩) := rfl

/-- What follows a block is done where its reading stops, unless the
reading fails. -/
theorem block_bind_eq {α : Type} (tokens rest : List Token)
    (f : Program → Descent α) :
    let r := Reading.ofTokens rest
    (block >>= f) ⟨tokens, rest⟩
      = match r.block tokens.length with
        | .ok p => f p ⟨tokens, r.stop⟩
        | .error e => (.error e, ⟨tokens, r.stop⟩) := by
  intro r
  have hblock : block ⟨tokens, rest⟩
      = (r.block tokens.length, ⟨tokens, r.stop⟩) := block_eq tokens rest
  match hread : r.block tokens.length with
  | .ok p =>
      rw [hread] at hblock
      exact bind_of_ok hblock
  | .error e =>
      rw [hread] at hblock
      exact bind_of_error hblock

/-- What is put in front of a block is put in front of what is read. -/
theorem block_bind (tokens rest : List Token) (f : Program → Program) :
    (do return f (← block) : Descent Program) ⟨tokens, rest⟩
      = (((Reading.ofTokens rest).mapBlock f).block tokens.length,
        ⟨tokens, ((Reading.ofTokens rest).mapBlock f).stop⟩) := by
  rw [block_bind_eq]
  cases Reading.ofTokens rest <;> rfl

/-- A loop is its body, its closing bracket and what is behind it. -/
theorem block_loop (tokens rest : List Token) (opened : Position) :
    (do
      let body ← block
      closeLoop opened
      return .loop body (← block) : Descent Program) ⟨tokens, rest⟩
      = (((Reading.ofTokens rest).enclose opened).block tokens.length,
        ⟨tokens, ((Reading.ofTokens rest).enclose opened).stop⟩) := by
  have hstops := Reading.stopsIn_ofTokens rest
  rw [block_bind_eq]
  cases hr : Reading.ofTokens rest with
  | closed body place stop outer =>
      rw [hr] at hstops
      obtain ⟨behind, rfl, -, rfl⟩ := hstops
      exact block_bind tokens behind (.loop body)
  | ended body place stop =>
      rw [hr] at hstops
      obtain ⟨behind, rfl, -⟩ := hstops
      rfl
  | unclosed opened' place stop => rfl
  | exhausted => rfl

/-- The reader of blocks takes the steps of the descent. -/
theorem blockStep_block : blockStep block = block := by
  funext ⟨tokens, rest⟩
  cases rest with
  | nil => rfl
  | cons token rest =>
      obtain ⟨kind, position⟩ := token
      cases kind with
      | other c => rfl
      | endOfInput => rfl
      | loopClose => rfl
      | op op =>
          rw [block_eq, Reading.ofTokens_leading_run]
          exact block_bind tokens _ (.run op _)
      | loopOpen => exact block_loop tokens rest position

/-- The reader of programs does too. -/
theorem programStep_block : programStep block = program := by
  funext ⟨tokens, rest⟩
  have hprogram : program ⟨tokens, rest⟩
      = ((Reading.ofTokens rest).program tokens.length,
        ⟨tokens, (Reading.ofTokens rest).stop⟩) := rfl
  have hstops := Reading.stopsIn_ofTokens rest
  rw [programStep, block_bind_eq, hprogram]
  cases hr : Reading.ofTokens rest with
  | closed p place stop outer =>
      rw [hr] at hstops
      obtain ⟨behind, rfl, -⟩ := hstops
      rfl
  | ended p place stop =>
      rw [hr] at hstops
      obtain ⟨behind, rfl, -⟩ := hstops
      rfl
  | unclosed opened place stop => rfl
  | exhausted => rfl

-- ======================================================== behind blocks

variable {c c' : Cursor} {p : Program}

/-- A cursor never moves back over a block, be it read or not. -/
theorem block_suffix (c : Cursor) : (block c).2.rest <:+ c.rest :=
  Reading.stop_suffix c.rest

/-- Behind a block a cursor stands on a closing bracket or on the end of
the input. -/
theorem stands_of_block (h : block c = (.ok p, c')) :
    ∃ place behind, c'.rest = ⟨.loopClose, place⟩ :: behind
      ∨ c'.rest = ⟨.endOfInput, place⟩ :: behind := by
  have hblock := (block_eq c.tokens c.rest).symm.trans h
  have hstops := Reading.stopsIn_ofTokens c.rest
  cases hr : Reading.ofTokens c.rest with
  | closed p place stop outer =>
      rw [hr] at hblock hstops
      obtain ⟨behind, rfl, -⟩ := hstops
      cases hblock
      exact ⟨place, behind, .inl rfl⟩
  | ended p place stop =>
      rw [hr] at hblock hstops
      obtain ⟨behind, rfl, -⟩ := hstops
      cases hblock
      exact ⟨place, behind, .inr rfl⟩
  | unclosed opened place stop =>
      rw [hr] at hblock
      cases hblock
  | exhausted =>
      rw [hr] at hblock
      cases hblock

/-- Behind the body of a loop there is a closing bracket, which is
passed, or the end of the input; the list is never over. -/
theorem closeLoop_of_block (h : block c = (.ok p, c'))
    (opened : Position) :
    (∃ place behind, c'.rest = ⟨.loopClose, place⟩ :: behind
      ∧ closeLoop opened c' = (.ok (), { c' with rest := behind }))
    ∨ ∃ place behind, c'.rest = ⟨.endOfInput, place⟩ :: behind
      ∧ closeLoop opened c'
        = (.error (.unclosedLoop opened .endOfInput place), c') := by
  obtain ⟨tokens, rest⟩ := c'
  obtain ⟨place, behind, rfl | rfl⟩ := stands_of_block h
  · exact .inl ⟨place, behind, rfl, rfl⟩
  · exact .inr ⟨place, behind, rfl, rfl⟩

/-- Of a program that is not read through, only a closing bracket
behind it can be to blame; here too the list is never over. -/
theorem programStep_of_block (h : block c = (.ok p, c')) :
    (∃ place behind, c'.rest = ⟨.loopClose, place⟩ :: behind
      ∧ programStep block c = (.error (.strayClose place), c'))
    ∨ ∃ place behind, c'.rest = ⟨.endOfInput, place⟩ :: behind
      ∧ programStep block c = (.ok p, c') := by
  rw [programStep, bind_of_ok h]
  obtain ⟨tokens, rest⟩ := c'
  obtain ⟨place, behind, rfl | rfl⟩ := stands_of_block h
  · exact .inl ⟨place, behind, rfl, rfl⟩
  · exact .inr ⟨place, behind, rfl, rfl⟩

-- ========================================================== uniqueness

/-- A step asks the reader about shorter lists only. -/
theorem blockStep_congr {read : Descent Program}
    (h : ∀ c' : Cursor, c'.rest.length < c.rest.length →
      read c' = block c') : blockStep read c = blockStep block c := by
  obtain ⟨tokens, rest⟩ := c
  cases rest with
  | nil => rfl
  | cons token rest =>
      have hrest : read ⟨tokens, rest⟩ = block ⟨tokens, rest⟩ :=
        h _ (Nat.lt_succ_self _)
      obtain ⟨kind, position⟩ := token
      cases kind with
      | other c => exact hrest
      | endOfInput => rfl
      | loopClose => rfl
      | op op =>
          refine bind_congr (h _ ?_)
          dsimp only
          rw [List.dropWhile_cons_of_pos]
          · exact Nat.lt_succ_of_le (List.dropWhile_suffix _).length_le
          · exact decide_eq_true rfl
      | loopOpen =>
          show (do
              let body ← read
              closeLoop position
              return .loop body (← read) : Descent Program) ⟨tokens, rest⟩
            = (do
              let body ← block
              closeLoop position
              return .loop body (← block) : Descent Program)
                ⟨tokens, rest⟩
          rw [bind_congr hrest]
          match hbody : block ⟨tokens, rest⟩ with
          | (.error e, c) => rw [bind_of_error hbody, bind_of_error hbody]
          | (.ok body, c) =>
              rw [bind_of_ok hbody, bind_of_ok hbody]
              have hin := block_suffix ⟨tokens, rest⟩
              rw [hbody] at hin
              rcases closeLoop_of_block hbody position with
                ⟨place, behind, hbehind, hclose⟩ | ⟨place, -, -, hclose⟩
              · rw [bind_of_ok hclose, bind_of_ok hclose]
                -- what is behind the bracket is a part of what the body
                -- was read from
                refine bind_congr (h _ ?_)
                have hshort := hin.length_le
                rw [hbehind, List.length_cons] at hshort
                exact Nat.lt_succ_of_lt hshort
              · rw [bind_of_error hclose, bind_of_error hclose]

/-- Whatever takes the steps of the descent is the reader of blocks. -/
theorem eq_block_of_step {read : Descent Program}
    (h : blockStep read = read) : read = block := by
  funext c
  induction hlength : c.rest.length using Nat.strongRecOn generalizing c with
  | _ length ih =>
      have hstep : blockStep read c = blockStep block c :=
        blockStep_congr fun c' hc' => ih _ (hlength ▸ hc') c' rfl
      rwa [h, blockStep_block] at hstep

end Descent

/-- A recursive descent on all tokens gives the program that they
spell, or what is wrong with them. -/
theorem Program.ofTokens_eq_descent {read : Descent Program}
    (h : Descent.blockStep read = read) (tokens : List Token) :
    Program.ofTokens tokens
      = (Descent.programStep read (Cursor.ofTokens tokens)).1 := by
  rw [Descent.eq_block_of_step h, Descent.programStep_block]
  rfl

end TapeAsm
