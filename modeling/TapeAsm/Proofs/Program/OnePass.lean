/-
Reading tokens against one pass over them with a stack. The pass goes
from the left and keeps the places of the brackets that are open, the
innermost first, until a token decides (`onePass`): the first end of the
input, or the first closing bracket outside of all loops. The reader
finds the same, token lists that no text has included, and what stands
behind the deciding token is all one to it (`Program.ofTokens_onePass`).

The reader goes over the tokens from the last to the first, so what it
knows of the tokens behind a place has to be told from the brackets that
are open there. Each of them takes one block of the reading for its body
(`Reading.resolve`); so an opening bracket in front of the reading is
the same as one more on the stack, and the agreement goes through by
induction on the tokens. For the tokens behind the deciding one, two
readings agree as far as the open brackets reach (`Reading.Agree`).
-/
import TapeAsm.Program.Reading

namespace TapeAsm

-- ============================================================ the pass

namespace Token

/-- What a token decides where brackets are open at these places, if it
decides anything. -/
def verdict? (opened : List Position) (token : Token) :
    Option (Except SyntaxError Unit) :=
  match token.kind, opened with
  | .endOfInput, [] => some (.ok ())
  | .endOfInput, place :: _ =>
    some (.error (.unclosedLoop place .endOfInput token.position))
  | .loopClose, [] => some (.error (.strayClose token.position))
  | _, _ => none

/-- The places of the brackets that are open behind a token. -/
def opened (outer : List Position) (token : Token) : List Position :=
  match token.kind with
  | .loopOpen => token.position :: outer
  | .loopClose => outer.tail
  | _ => outer

end Token

/-- The pass over the tokens that are left, when `passed` tokens are
behind and brackets are open at the given places. -/
def onePass (passed : Nat) (opened : List Position) :
    List Token → Except SyntaxError Unit
  | [] => .error (.noEndMarker passed)
  | token :: rest =>
    match token.verdict? opened with
    | some verdict => verdict
    | none => onePass (passed + 1) (token.opened opened) rest

-- ========================================================= resolution

namespace Reading

/-- What a reading comes to where brackets are open at these places: its
blocks are their bodies, one after the other. -/
def resolve (tokens : Nat) : List Position → Reading →
    Except SyntaxError Unit
  | [], closed _ place _ _ => .error (.strayClose place)
  | _ :: opened, closed _ _ _ outer => outer.resolve tokens opened
  | [], ended _ _ _ => .ok ()
  | opened :: _, ended _ place _ =>
    .error (.unclosedLoop opened .endOfInput place)
  | _, unclosed opened place _ =>
    .error (.unclosedLoop opened .endOfInput place)
  | _, exhausted => .error (.noEndMarker tokens)

variable (tokens : Nat) (opened : List Position)

theorem resolve_mapBlock (f : Program → Program) (r : Reading) :
    (r.mapBlock f).resolve tokens opened = r.resolve tokens opened := by
  cases r <;> cases opened <;> rfl

/-- A bracket in front of a reading is one more that is open. -/
theorem resolve_enclose (place : Position) (r : Reading) :
    (r.enclose place).resolve tokens opened
      = r.resolve tokens (place :: opened) := by
  cases r with
  | closed body stopAt stop outer =>
      exact resolve_mapBlock tokens opened (.loop body) outer
  | ended block stopAt stop => cases opened <;> rfl
  | unclosed opened' stopAt stop => cases opened <;> rfl
  | exhausted => cases opened <;> rfl

/-- A whole program is read where no bracket is open. -/
theorem map_program (r : Reading) :
    (r.program tokens).map (fun _ => ()) = r.resolve tokens [] := by
  cases r <;> rfl

end Reading

/-- The reading of the tokens that are left comes to what the pass over
them comes to. -/
theorem onePass_eq_resolve (passed : Nat) (opened : List Position)
    (tokens : List Token) :
    onePass passed opened tokens
      = (Reading.ofTokens tokens).resolve (passed + tokens.length)
          opened := by
  induction tokens generalizing passed opened with
  | nil => cases opened <;> rfl
  | cons token rest ih =>
      have hlength : passed + (token :: rest).length
          = passed + 1 + rest.length := by
        rw [List.length_cons]
        omega
      rw [onePass, hlength]
      cases hkind : token.kind with
      | op op =>
          simp only [Token.verdict?, Token.opened, hkind,
            Reading.ofTokens, Reading.resolve_mapBlock, ih]
      | loopOpen =>
          simp only [Token.verdict?, Token.opened, hkind,
            Reading.ofTokens, Reading.resolve_enclose, ih]
      | loopClose =>
          cases opened with
          | nil =>
              simp only [Token.verdict?, hkind, Reading.ofTokens,
                Reading.resolve]
          | cons place outer =>
              simp only [Token.verdict?, Token.opened, hkind,
                Reading.ofTokens, Reading.resolve, List.tail_cons, ih]
      | endOfInput =>
          cases opened <;>
            simp only [Token.verdict?, hkind, Reading.ofTokens,
              Reading.resolve]
      | other c =>
          simp only [Token.verdict?, Token.opened, hkind,
            Reading.ofTokens, ih]

-- =============================================== behind the verdict

namespace Reading

/-- Two readings agree as far as the brackets reach that are open in
front of them, `depth` in number: in a block for each bracket and in
the block behind those, with what stops it. -/
inductive Agree : Nat → Reading → Reading → Prop where
  | closed (block : Program) (place : Position) (stop stop' : List Token)
    (outer outer' : Reading) :
    Agree 0 (closed block place stop outer)
      (closed block place stop' outer')
  | within {depth : Nat} {outer outer' : Reading} (block : Program)
    (place : Position) (stop stop' : List Token)
    (h : Agree depth outer outer') :
    Agree (depth + 1) (closed block place stop outer)
      (closed block place stop' outer')
  | ended (depth : Nat) (block : Program) (place : Position)
    (stop stop' : List Token) :
    Agree depth (ended block place stop) (ended block place stop')
  | unclosed (depth : Nat) (opened place : Position)
    (stop stop' : List Token) :
    Agree depth (unclosed opened place stop)
      (unclosed opened place stop')

namespace Agree

variable {depth : Nat} {r r' : Reading}

theorem mapBlock (h : Agree depth r r') (f : Program → Program) :
    Agree depth (r.mapBlock f) (r'.mapBlock f) := by
  cases h with
  | closed block place stop stop' outer outer' => exact .closed ..
  | within block place stop stop' h => exact .within _ _ _ _ h
  | ended _ block place stop stop' => exact .ended ..
  | unclosed _ opened place stop stop' => exact .unclosed ..

/-- A bracket in front takes one block. -/
theorem enclose (h : Agree (depth + 1) r r') (place : Position) :
    Agree depth (r.enclose place) (r'.enclose place) := by
  cases h with
  | within block stopAt stop stop' h => exact h.mapBlock _
  | ended _ block stopAt stop stop' => exact .unclosed ..
  | unclosed _ opened stopAt stop stop' => exact .unclosed ..

/-- Where no bracket is open, the same program is read. -/
theorem program_eq (h : Agree 0 r r') (tokens tokens' : Nat) :
    r.program tokens = r'.program tokens' := by
  cases h with
  | closed block place stop stop' outer outer' => rfl
  | ended _ block place stop stop' => rfl
  | unclosed _ opened place stop stop' => rfl

end Agree

theorem startsWith_append_cons (op : Op) (front : List Token)
    (token : Token) (rest rest' : List Token) :
    startsWith op (front ++ token :: rest)
      = startsWith op (front ++ token :: rest') := by
  cases front <;> rfl

/-- What stands behind a token that decides is not read. -/
theorem agree_of_verdict {opened : List Position} {front : List Token}
    {token : Token}
    (h : (token.verdict? (front.foldl Token.opened opened)).isSome)
    (rest rest' : List Token) :
    Agree opened.length (ofTokens (front ++ token :: rest))
      (ofTokens (front ++ token :: rest')) := by
  induction front generalizing opened with
  | nil =>
      simp only [List.nil_append, ofTokens]
      cases hkind : token.kind with
      | op op => simp [Token.verdict?, hkind] at h
      | loopOpen => simp [Token.verdict?, hkind] at h
      | loopClose =>
          cases opened with
          | nil => exact .closed ..
          | cons place outer => simp [Token.verdict?, hkind] at h
      | endOfInput => exact .ended ..
      | other c => simp [Token.verdict?, hkind] at h
  | cons first front ih =>
      rw [List.foldl_cons] at h
      have hrest := ih h
      simp only [List.cons_append, ofTokens]
      cases hkind : first.kind with
      | op op =>
          simp only [Token.opened, hkind] at hrest
          simp only [startsWith_append_cons op front token rest rest']
          exact hrest.mapBlock _
      | loopOpen =>
          simp only [Token.opened, hkind, List.length_cons] at hrest
          exact hrest.enclose _
      | loopClose =>
          cases opened with
          | nil => exact .closed ..
          | cons place outer =>
              simp only [Token.opened, hkind, List.tail_cons] at hrest
              exact .within _ _ _ _ hrest
      | endOfInput => exact .ended ..
      | other c =>
          simp only [Token.opened, hkind] at hrest
          exact hrest

end Reading

-- ========================================================== programs

/-- Whether a token list is a program, and if not why, is what one pass
over the tokens finds, and a token at which the pass is over makes what
stands behind it of no account. -/
theorem Program.ofTokens_onePass (tokens : List Token) :
    (ofTokens tokens).map (fun _ => ()) = onePass 0 [] tokens
      ∧ ∀ front token rest, tokens = front ++ token :: rest →
        (token.verdict? (front.foldl Token.opened [])).isSome →
        ∀ rest', ofTokens (front ++ token :: rest') = ofTokens tokens := by
  refine ⟨?_, ?_⟩
  · rw [onePass_eq_resolve, Nat.zero_add]
    exact Reading.map_program tokens.length _
  · rintro front token rest rfl h rest'
    exact (Reading.agree_of_verdict h rest' rest).program_eq _ _

/-- The end of the input inside of a loop is an early end; the bracket
that would close the loop comes too late. -/
theorem Program.ofTokens_onePass_early_end :
    onePass 0 [] [⟨.loopOpen, .start⟩, ⟨.endOfInput, ⟨1, 2, 1⟩⟩,
          ⟨.loopClose, ⟨1, 2, 1⟩⟩]
        = .error (.unclosedLoop .start .endOfInput ⟨1, 2, 1⟩)
      ∧ (Token.verdict? ([⟨.loopOpen, .start⟩].foldl Token.opened [])
          ⟨.endOfInput, ⟨1, 2, 1⟩⟩).isSome
      ∧ ofTokens ([⟨.loopOpen, .start⟩] ++ ⟨.endOfInput, ⟨1, 2, 1⟩⟩ :: [])
        = ofTokens [⟨.loopOpen, .start⟩, ⟨.endOfInput, ⟨1, 2, 1⟩⟩,
            ⟨.loopClose, ⟨1, 2, 1⟩⟩] :=
  ⟨rfl, rfl, (ofTokens_onePass [⟨.loopOpen, .start⟩,
    ⟨.endOfInput, ⟨1, 2, 1⟩⟩, ⟨.loopClose, ⟨1, 2, 1⟩⟩]).2
      [⟨.loopOpen, .start⟩] ⟨.endOfInput, ⟨1, 2, 1⟩⟩
      [⟨.loopClose, ⟨1, 2, 1⟩⟩] rfl rfl []⟩

end TapeAsm
