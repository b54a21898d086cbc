/-
Where a cursor comes to rest. The first call on a cursor, whichever of
the two it is and whatever comes of it, leaves the cursor on the first
token that stops it: the end of the input, or a closing bracket outside
of all loops; or behind the last token if there is none. Every later
call finds the cursor there and leaves it there, and its answer depends
on nothing but the token that it stands on (`Cursor.settles`).

A reading knows more than where its block stops: where a closing
bracket stops it, it knows the reading behind as well. So `stopAt` asks
it where the block stops that is so many brackets further out, and an
opening bracket in front of a reading is one bracket more
(`stopAt_enclose`). With as many brackets as are open this is the first
stop, by induction on the tokens (`stopAt_ofTokens`); the first call
asks with none open. That the later calls stay needs no induction on
tokens: on a stop the reading is over at once (`read_of_halts`).
-/
import TapeAsm.Proofs.Program.OnePass

namespace TapeAsm

-- ======================================================== first stops

namespace Token

/-- A token is a stop where brackets are open at these places: the end
of the input anywhere, a closing bracket outside of all loops. -/
def Stops (opened : List Position) (token : Token) : Prop :=
  token.kind = .endOfInput ∨ token.kind = .loopClose ∧ opened = []

instance (opened : List Position) (token : Token) :
    Decidable (token.Stops opened) :=
  inferInstanceAs (Decidable (_ ∨ _))

/-- A token list as the tokens in front of its first stop and those
from it on, where brackets are open in front of it already. -/
structure FirstStop (opened : List Position)
    (front rest tokens : List Token) : Prop where
  /-- Nothing is left out, and nothing is there twice. -/
  split : tokens = front ++ rest
  /-- No token in front is a stop, with the brackets that are open
  there. -/
  passed : ∀ before token behind, front = before ++ token :: behind →
    ¬ token.Stops (before.foldl Token.opened opened)
  /-- The first token of the rest is one, if there is any. -/
  stops : ∀ token behind, rest = token :: behind →
    token.Stops (front.foldl Token.opened opened)

/-- The tokens from the first stop on. -/
def fromStop (opened : List Position) : List Token → List Token
  | [] => []
  | token :: rest =>
    if token.Stops opened then token :: rest
    else fromStop (token.opened opened) rest

/-- Every token list is parted at its first stop. -/
theorem exists_firstStop (opened : List Position) (tokens : List Token) :
    ∃ front, FirstStop opened front (fromStop opened tokens) tokens := by
  induction tokens generalizing opened with
  | nil =>
      exact ⟨[], rfl, fun before token behind h => by simp at h,
        fun token behind h => by cases h⟩
  | cons token tokens ih =>
      by_cases hstops : token.Stops opened
      · refine ⟨[], ?_, fun before token behind h => by simp at h, ?_⟩
        · simp [fromStop, hstops]
        · rw [fromStop, if_pos hstops]
          rintro _ _ ⟨⟩
          exact hstops
      · obtain ⟨front, split, passed, stops⟩ := ih (token.opened opened)
        rw [fromStop, if_neg hstops]
        refine ⟨token :: front, by rw [List.cons_append, ← split], ?_,
          stops⟩
        intro before token' behind h
        cases before with
        | nil =>
            obtain ⟨rfl, -⟩ := List.cons.inj h
            exact hstops
        | cons first before =>
            obtain ⟨rfl, hfront⟩ := List.cons.inj h
            exact passed before token' behind hfront

end Token

-- ================================================= stops of a reading

namespace Reading

/-- Where the block of a reading stops, or, so many brackets further
out, the block that encloses it. -/
def stopAt : Nat → Reading → List Token
  | depth + 1, closed _ _ _ outer => outer.stopAt depth
  | _, r => r.stop

variable (depth : Nat) (r : Reading)

theorem stopAt_zero : r.stopAt 0 = r.stop := by
  cases r <;> rfl

theorem stopAt_mapBlock (f : Program → Program) :
    (r.mapBlock f).stopAt depth = r.stopAt depth := by
  cases r <;> cases depth <;> rfl

/-- A bracket in front of a reading takes its block, so that the block
further out is the one in which the bracket stands. -/
theorem stopAt_enclose (opened : Position) :
    (r.enclose opened).stopAt depth = r.stopAt (depth + 1) := by
  cases r with
  | closed body place stop outer =>
      exact stopAt_mapBlock depth outer (.loop body)
  | ended block place stop => cases depth <;> rfl
  | unclosed opened' place stop => cases depth <;> rfl
  | exhausted => cases depth <;> rfl

/-- As far out as brackets are open, a reading stops at the first
stop. -/
theorem stopAt_ofTokens (opened : List Position) (tokens : List Token) :
    (ofTokens tokens).stopAt opened.length
      = Token.fromStop opened tokens := by
  induction tokens generalizing opened with
  | nil => cases opened <;> rfl
  | cons token rest ih =>
      cases hkind : token.kind with
      | op op =>
          simp only [Token.fromStop, Token.Stops, Token.opened, hkind,
            ofTokens, stopAt_mapBlock, ih]
          simp
      | loopOpen =>
          simp only [Token.fromStop, Token.Stops, Token.opened, hkind,
            ofTokens, stopAt_enclose, ← ih, List.length_cons]
          simp
      | loopClose =>
          cases opened with
          | nil =>
              simp [Token.fromStop, Token.Stops, hkind, ofTokens, stopAt,
                stop]
          | cons place outer =>
              simp [Token.fromStop, Token.Stops, Token.opened, hkind,
                ofTokens, stopAt, ih]
      | endOfInput =>
          cases opened <;>
            simp [Token.fromStop, Token.Stops, hkind, ofTokens, stopAt,
              stop]
      | other c =>
          simp only [Token.fromStop, Token.Stops, Token.opened, hkind,
            ofTokens, ih]
          simp

end Reading

-- ============================================================== calls

namespace Cursor

/-- A call on a cursor. -/
inductive Request where
  | block
  | program

/-- What a call answers, and where it leaves the cursor. -/
def read (c : Cursor) :
    Request → Except SyntaxError Program × Cursor
  | .block => c.readBlock
  | .program => c.readProgram

/-- The cursor after some calls, one after the other. -/
def after (c : Cursor) (requests : List Request) : Cursor :=
  requests.foldl (fun c request => (c.read request).2) c

/-- What the calls answer. -/
def answers (c : Cursor) :
    List Request → List (Except SyntaxError Program)
  | [] => []
  | request :: requests =>
    (c.read request).1 :: (c.read request).2.answers requests

/-- What a call answers on the first of these tokens, when there are
`tokens` in the whole list and that one is a stop: nothing is there to
read, and only a whole program minds a closing bracket. -/
def answerAt (tokens : Nat) :
    List Token → Request → Except SyntaxError Program
  | [], _ => .error (.noEndMarker tokens)
  | _ :: _, .block => .ok .done
  | token :: _, .program =>
    if token.kind = .loopClose then .error (.strayClose token.position)
    else .ok .done

variable {tokens rest : List Token}

/-- A call leaves the cursor where its reading stops. -/
theorem read_snd (c : Cursor) (request : Request) :
    (c.read request).2
      = { c with rest := (Reading.ofTokens c.rest).stop } := by
  cases request <;> rfl

/-- On a stop a call reads nothing and the cursor stays. -/
theorem read_of_halts {opened : List Position}
    (h : ∀ token behind, rest = token :: behind → token.Stops opened)
    (request : Request) :
    (⟨tokens, rest⟩ : Cursor).read request
      = (answerAt tokens.length rest request, ⟨tokens, rest⟩) := by
  cases rest with
  | nil => cases request <;> rfl
  | cons token behind =>
      rcases h token behind rfl with hkind | ⟨hkind, -⟩ <;>
        cases request <;>
        simp [read, readBlock, readProgram, Reading.ofTokens, hkind,
          Reading.block, Reading.program, Reading.stop, answerAt]

/-- A cursor on a stop stays there, through any calls. -/
theorem after_of_halts {opened : List Position}
    (h : ∀ token behind, rest = token :: behind → token.Stops opened)
    (requests : List Request) :
    (⟨tokens, rest⟩ : Cursor).after requests = ⟨tokens, rest⟩
      ∧ (⟨tokens, rest⟩ : Cursor).answers requests
        = requests.map (answerAt tokens.length rest) := by
  induction requests with
  | nil => exact ⟨rfl, rfl⟩
  | cons request requests ih =>
      refine ⟨?_, ?_⟩
      · rw [after, List.foldl_cons, read_of_halts h, ← after, ih.1]
      · rw [answers, read_of_halts h, ih.2, List.map_cons]

/-- The first call takes the cursor to the first stop, whatever it
answers. No later call takes it further or back, and what the later
calls answer is what there is to say about the stop. -/
theorem settles (tokens : List Token) :
    ∃ front rest, Token.FirstStop [] front rest tokens ∧
      ∀ first later,
        (ofTokens tokens).after (first :: later) = ⟨tokens, rest⟩
          ∧ ((ofTokens tokens).after (first :: later)).index
            = front.length
          ∧ ((ofTokens tokens).answers (first :: later)).tail
            = later.map (answerAt tokens.length rest) := by
  obtain ⟨front, hstop⟩ := Token.exists_firstStop [] tokens
  refine ⟨front, Token.fromStop [] tokens, hstop, fun first later => ?_⟩
  have hread : ((ofTokens tokens).read first).2
      = ⟨tokens, Token.fromStop [] tokens⟩ := by
    rw [read_snd, ← Reading.stopAt_ofTokens [] tokens, List.length_nil,
      Reading.stopAt_zero]
    rfl
  obtain ⟨hafter, hanswers⟩ := after_of_halts hstop.stops later
  have hcursor : (ofTokens tokens).after (first :: later)
      = ⟨tokens, Token.fromStop [] tokens⟩ := by
    rw [after, List.foldl_cons, hread, ← after, hafter]
  refine ⟨hcursor, ?_, ?_⟩
  · have hlength : tokens.length
        = front.length + (Token.fromStop [] tokens).length := by
      rw [← List.length_append, ← hstop.split]
    rw [hcursor]
    show tokens.length - (Token.fromStop [] tokens).length = front.length
    omega
  · rw [answers, List.tail_cons, hread, hanswers]

/-- Behind the end of the input in an open loop nothing more is found
wrong. -/
example : (ofTokens [⟨.loopOpen, .start⟩, ⟨.endOfInput, ⟨1, 2, 1⟩⟩,
      ⟨.loopClose, ⟨1, 2, 1⟩⟩]).answers [.program, .block, .program]
    = [.error (.unclosedLoop .start .endOfInput ⟨1, 2, 1⟩), .ok .done,
        .ok .done] :=
  rfl

end Cursor

end TapeAsm
