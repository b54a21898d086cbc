/-
A program written out as a nested record, on one line (`compact`) or
with one field or item on each line (`pretty`).
-/
import TapeAsm.Program.Basic

namespace TapeAsm

/-- The name of an operation in an outline. -/
def Op.title : Op → String
  | .moveRight => "Increment"
  | .moveLeft => "Decrement"
  | .increment => "DerefIncrement"
  | .decrement => "DerefDecrement"
  | .write => "Write"
  | .read => "Read"

namespace Outline

-- ======================================================= on one line

/-- A block on one line, given its items. -/
def block (items : List String) : String :=
  "BasicBlock \x7b instructions: [" ++ ", ".intercalate items ++ "] \x7d"

/-- The items of a program, each on one line. -/
def items : Program → List String
  | .done => []
  | .run op count next =>
    ("Operation \x7b op: " ++ op.title ++ ", count: " ++ toString count
      ++ " \x7d") :: items next
  | .loop body next => ("Loop(" ++ block (items body) ++ ")") :: items next

/-- A program on one line. -/
def compact (p : Program) : String := block (items p)

-- ================================================== over many lines

/-- A line that is `depth` levels deep; a level is four blanks. -/
def line (depth : Nat) (text : String) : String :=
  String.ofList (List.replicate (4 * depth) ' ') ++ text

/-- The lines of a block at a depth, given those of its items; `mark`
follows the last one. -/
def blockLines (depth : Nat) (mark : String) (items : List String) :
    List String :=
  match items with
  | [] =>
    [line depth "BasicBlock \x7b", line (depth + 1) "instructions: [],",
      line depth ("\x7d" ++ mark)]
  | items =>
    line depth "BasicBlock \x7b" :: line (depth + 1) "instructions: ["
      :: (items ++ [line (depth + 1) "],", line depth ("\x7d" ++ mark)])

/-- The lines of the items of a block at a depth, two levels below
it. -/
def itemLines (depth : Nat) : Program → List String
  | .done => []
  | .run op count next =>
    line (depth + 2) "Operation \x7b"
      :: line (depth + 3) ("op: " ++ op.title ++ ",")
      :: line (depth + 3) ("count: " ++ toString count ++ ",")
      :: line (depth + 2) "\x7d,"
      :: itemLines depth next
  | .loop body next =>
    line (depth + 2) "Loop("
      :: (blockLines (depth + 3) "," (itemLines (depth + 3) body)
        ++ line (depth + 2) ")," :: itemLines depth next)

/-- A program over as many lines as it has fields, items and brackets. -/
def pretty (p : Program) : String :=
  "\n".intercalate (blockLines 0 "" (itemLines 0 p))

end Outline

end TapeAsm
