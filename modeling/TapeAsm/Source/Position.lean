/-
Places in a source text. A place knows its line, its column and its
offset; it moves by one character at a time (`after`) or over a whole
stretch of text (`afterAll`), and the two agree on concatenation
(`afterAll_append`).
-/

namespace TapeAsm

/-- A place in a source text, counted in characters: lines and columns
from one, offsets from zero. -/
structure Position where
  line : Nat := 1
  column : Nat := 1
  offset : Nat := 0
deriving DecidableEq

namespace Position

/-- The place of the first character of a text. -/
def start : Position := {}

/-- The place behind a character that stands at `p`: a line feed opens
the next line, every other character takes one column. -/
def after (p : Position) (c : Char) : Position :=
  if c = '\n' then ⟨p.line + 1, 1, p.offset + 1⟩
  else ⟨p.line, p.column + 1, p.offset + 1⟩

/-- The place behind a stretch of text that begins at `p`. -/
def afterAll (p : Position) (cs : List Char) : Position :=
  cs.foldl after p

@[simp] theorem afterAll_nil (p : Position) : p.afterAll [] = p := rfl

/-- Characters move a place on one by one. -/
@[simp] theorem afterAll_cons (p : Position) (c : Char) (cs : List Char) :
    p.afterAll (c :: cs) = (p.after c).afterAll cs := rfl

/-- The place behind two texts in a row is the place behind the second,
from behind the first. -/
theorem afterAll_append (p : Position) (cs ds : List Char) :
    p.afterAll (cs ++ ds) = (p.afterAll cs).afterAll ds :=
  List.foldl_append ..

/-- The offset counts the characters that lie in between. -/
theorem offset_afterAll (p : Position) (cs : List Char) :
    (p.afterAll cs).offset = p.offset + cs.length := by
  induction cs generalizing p with
  | nil => rfl
  | cons c cs ih =>
    have hc : (p.after c).offset = p.offset + 1 := by
      unfold after
      split <;> rfl
    rw [afterAll_cons, ih, hc, List.length_cons]
    omega

/-- A place as messages show it, `line:column`. -/
def text (p : Position) : String :=
  toString p.line ++ ":" ++ toString p.column

end Position

end TapeAsm
