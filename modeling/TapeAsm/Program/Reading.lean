/-
Token lists read as programs. A reading of a token list knows the block
that the list begins with and how that block stops: at a closing
bracket from outside of it (and then the reading of what follows is
known as well), at the end of the input, inside a loop that is never
closed, or nowhere. Reading goes over the tokens once, from the last to
the first; an opening bracket takes the block that follows it for its
body.

A `Cursor` reads blocks or whole programs off one token list again and
again and stays on the token that stopped it. A recursive descent on one
cursor takes the same steps (`Descent.blockStep_block`).
-/
import TapeAsm.Program.Basic
import TapeAsm.Program.SyntaxError

namespace TapeAsm

-- =========================================================== readings

/-- A token list as a block and what stops it. Each `stop` is the part
of the list from the stopping token on. -/
inductive Reading where
  /-- The block stops at a closing bracket that is not its own. -/
  | closed (block : Program) (place : Position) (stop : List Token)
      (outer : Reading)
  /-- The block stops at the end of the input. -/
  | ended (block : Program) (place : Position) (stop : List Token)
  /-- A loop that opens in the block is open at the end of the
  input. -/
  | unclosed (opened place : Position) (stop : List Token)
  /-- The list is over before the block is. -/
  | exhausted

/-- One operation in front of a program: it lengthens the first run if
it joins it, and is a run of its own otherwise. -/
def Program.precede (op : Op) (joins : Bool) : Program → Program
  | .run op' count next =>
    if joins then .run op' (count + 1) next
    else .run op 1 (.run op' count next)
  | p => .run op 1 p

namespace Reading

/-- The reading with another block in the place of its block. -/
def mapBlock (f : Program → Program) : Reading → Reading
  | closed block place stop outer => closed (f block) place stop outer
  | ended block place stop => ended (f block) place stop
  | unclosed opened place stop => unclosed opened place stop
  | exhausted => exhausted

/-- The reading with an opening bracket at `opened` in front: the block
becomes the body of a loop if a closing bracket stops it. -/
def enclose (opened : Position) : Reading → Reading
  | closed body _ _ outer => outer.mapBlock (.loop body)
  | ended _ place stop => unclosed opened place stop
  | unclosed opened' place stop => unclosed opened' place stop
  | exhausted => exhausted

/-- Whether a token list begins with the given operation. -/
def startsWith (op : Op) : List Token → Bool
  | [] => false
  | token :: _ => token.kind = .op op

/-- The reading of a token list. -/
def ofTokens : List Token → Reading
  | [] => exhausted
  | token :: rest =>
    match token.kind with
    | .op op => (ofTokens rest).mapBlock (.precede op (startsWith op rest))
    | .loopOpen => (ofTokens rest).enclose token.position
    | .loopClose =>
      closed .done token.position (token :: rest) (ofTokens rest)
    | .endOfInput => ended .done token.position (token :: rest)
    | .other _ => ofTokens rest

/-- The block at the start, or what is wrong in it; `tokens` is the
length of the whole list. -/
def block (tokens : Nat) : Reading → Except SyntaxError Program
  | closed block _ _ _ => .ok block
  | ended block _ _ => .ok block
  | unclosed opened place _ =>
    .error (.unclosedLoop opened .endOfInput place)
  | exhausted => .error (.noEndMarker tokens)

/-- The block at the start if it is a whole program: only the end of
the input may stop it. -/
def program (tokens : Nat) : Reading → Except SyntaxError Program
  | closed _ place _ _ => .error (.strayClose place)
  | ended block _ _ => .ok block
  | unclosed opened place _ =>
    .error (.unclosedLoop opened .endOfInput place)
  | exhausted => .error (.noEndMarker tokens)

/-- The tokens from the stopping one on. -/
def stop : Reading → List Token
  | closed _ _ stop _ => stop
  | ended _ _ stop => stop
  | unclosed _ _ stop => stop
  | exhausted => []

end Reading

-- ============================================================ cursors

/-- A place in a token list, given by the tokens from there on. -/
structure Cursor where
  tokens : List Token
  rest : List Token

namespace Cursor

/-- The cursor on the first token of a list. -/
def ofTokens (tokens : List Token) : Cursor := ⟨tokens, tokens⟩

/-- The number of tokens before the cursor. -/
def index (c : Cursor) : Nat := c.tokens.length - c.rest.length

/-- Reads a block and moves on to the token that stops it. -/
def readBlock (c : Cursor) : Except SyntaxError Program × Cursor :=
  let reading := Reading.ofTokens c.rest
  (reading.block c.tokens.length, { c with rest := reading.stop })

/-- Reads a whole program and moves on to the token that stops it. -/
def readProgram (c : Cursor) : Except SyntaxError Program × Cursor :=
  let reading := Reading.ofTokens c.rest
  (reading.program c.tokens.length, { c with rest := reading.stop })

end Cursor

/-- The program that a token list spells. -/
def Program.ofTokens (tokens : List Token) : Except SyntaxError Program :=
  (Cursor.ofTokens tokens).readProgram.1

end TapeAsm
