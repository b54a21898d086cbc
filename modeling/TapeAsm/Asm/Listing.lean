/-
The assembly text of a program. The tape is a buffer of bytes in the
data segment and `ebx` is the place of the head on it; `eax` is scratch
and takes the value of a character that is read. Calls follow the 32
bit C convention: arguments are pushed, and the caller takes them off
the stack again.

A run becomes a few instructions (`buildRun`), a loop a test and a jump
at its top (`buildLoopTest`) and a jump back at its bottom. Loops are
numbered in reading order, also over several programs in one `Listing`:
the generator passes a count of them on (`nextLoop`). With comments on,
the first instruction of a run and the two jumps of a loop name the
symbols that they come from.

A builder can refuse its operands, and none does here. So what is built
is there to be had: the code of a run (`runCode`), the lines of a
program and of a whole text (`body`, `unit`) and the longer listing
(`Listing.add`). They are given by equations from there on, in which the
count is the number of loops before (`run_buildBody`).
-/
import TapeAsm.Asm.Build
import TapeAsm.Program.Basic

namespace TapeAsm.Asm

/-- What can be chosen about the assembly text. -/
structure Options where
  /-- The number of cells on the tape. -/
  tapeSize : Nat := 100000
  /-- Whether instructions name the symbols that they come from. -/
  comments : Bool := true

-- ============================================================== names

/-- The label of the tape. -/
def tapeLabel : String := "tape"

/-- The label where a run of the compiled program begins. -/
def entryLabel : String := "main"

/-- The routine that writes a character. -/
def writeRoutine : String := "putchar"

/-- The routine that reads a character. -/
def readRoutine : String := "getchar"

/-- The label at the top of a loop. -/
def loopLabel (number : Nat) : String := "loop_" ++ toString number

/-- The label behind a loop. -/
def endLabel (number : Nat) : String := "end_loop_" ++ toString number

-- =========================================================== operands

/-- The place of the head on the tape. -/
def head : Operand := .register ⟨.b, .dword⟩

/-- The byte that holds a character just read or a cell under test. -/
def scratch : Operand := .register ⟨.a, .lowByte⟩

/-- The register that the caller of the program finds its answer in. -/
def answer : Operand := .register ⟨.a, .dword⟩

/-- The cell under the head, of a stated width or not. -/
def cell (size : Option OperandSize) : Operand :=
  .memory size tapeLabel ⟨.b, .dword⟩

-- ==================================================== building blocks

/-- The instructions of a run. A cell counts modulo 256, so no more
than the remainder is added or subtracted. A run of writes leaves its
argument on the stack from call to call, and a run of reads keeps the
last character only. -/
def buildRun : Op → Nat → Except Fault (List Instruction)
  | .moveRight, count => do
    return [← Build.add head (.immediate count)]
  | .moveLeft, count => do
    return [← Build.sub head (.immediate count)]
  | .increment, count => do
    return [← Build.add (cell (some .byte)) (.immediate (count % 256))]
  | .decrement, count => do
    return [← Build.sub (cell (some .byte)) (.immediate (count % 256))]
  | .write, count =>
    return Build.push (cell (some .dword))
      :: (List.replicate count (Build.call writeRoutine)
        ++ [Build.pop (.register ⟨.c, .dword⟩)])
  | .read, count => do
    return List.replicate count (Build.call readRoutine)
      ++ [← Build.mov (cell none) scratch]

/-- The test of the cell at the top of a loop. -/
def buildLoopTest : Except Fault (List Instruction) := do
  return [← Build.mov scratch (cell none),
    ← Build.cmp scratch (.immediate 0)]

/-- What a compiled program does before its first run or loop. -/
def buildPrologue : Except Fault (List Instruction) := do
  return [Build.enter 0 0, Build.pusha, ← Build.mov head (.immediate 0)]

/-- What a compiled program does at its end: it answers zero. -/
def buildEpilogue : Except Fault (List Instruction) := do
  return [Build.popa, ← Build.mov answer (.immediate 0), Build.leave,
    Build.ret]

/-- The pairs of operands in a run are all in order. -/
theorem buildRun_isSome (op : Op) (count : Nat) :
    (buildRun op count).toOption.isSome := by
  cases op <;>
    simp only [buildRun, Build.add, Build.sub, Build.mov, head, cell,
      scratch] <;>
    (try split) <;> rfl

/-- Those in the test of a loop and around a program are too. -/
theorem buildLoopTest_isSome : buildLoopTest.toOption.isSome := rfl

theorem buildPrologue_isSome : buildPrologue.toOption.isSome := rfl

theorem buildEpilogue_isSome : buildEpilogue.toOption.isSome := rfl

-- =============================================================== code

/-- The instructions of a run. -/
def runCode (op : Op) (count : Nat) : List Instruction :=
  (buildRun op count).toOption.get (buildRun_isSome op count)

/-- The instructions at the top of a loop, the jump apart. -/
def loopTest : List Instruction :=
  buildLoopTest.toOption.get buildLoopTest_isSome

/-- The instructions before a program. -/
def prologue : List Instruction :=
  buildPrologue.toOption.get buildPrologue_isSome

/-- The instructions behind a program. -/
def epilogue : List Instruction :=
  buildEpilogue.toOption.get buildEpilogue_isSome

section Built

variable {α : Type} {built : Except Fault α}

/-- What is built when nothing is refused. -/
theorem eq_ok_get (h : built.toOption.isSome) :
    built = .ok (built.toOption.get h) := by
  cases built with
  | error fault => cases h
  | ok value => rfl

/-- What is built is there to be had. -/
theorem isSome_of_eq_ok {value : α} (h : built = .ok value) :
    built.toOption.isSome := by
  rw [h]
  rfl

/-- What is had is what is built. -/
theorem get_of_eq_ok {value : α} (h : built = .ok value)
    (hsome : built.toOption.isSome) :
    built.toOption.get hsome = value :=
  (Except.ok.inj (h.symm.trans (eq_ok_get hsome))).symm

end Built

/-- Every run is built as its code. -/
theorem buildRun_eq (op : Op) (count : Nat) :
    buildRun op count = .ok (runCode op count) :=
  eq_ok_get (buildRun_isSome op count)

theorem buildLoopTest_eq : buildLoopTest = .ok loopTest :=
  eq_ok_get buildLoopTest_isSome

theorem buildPrologue_eq : buildPrologue = .ok prologue :=
  eq_ok_get buildPrologue_isSome

theorem buildEpilogue_eq : buildEpilogue = .ok epilogue :=
  eq_ok_get buildEpilogue_isSome

/-- Addition of a number, as its builder writes it. -/
def addNumber (dst : Operand) (n : Nat) : Instruction :=
  if n = 1 then Build.inc dst
  else { mnemonic := "add", operands := [dst, .immediate n] }

/-- Subtraction of a number, as its builder writes it. -/
def subNumber (dst : Operand) (n : Nat) : Instruction :=
  if n = 1 then Build.dec dst
  else { mnemonic := "sub", operands := [dst, .immediate n] }

/-- A move to the right goes all the way in one instruction. -/
theorem runCode_moveRight (count : Nat) :
    runCode .moveRight count = [addNumber head count] := by
  by_cases h : count = 1 <;>
    simp [runCode, buildRun, Build.add, addNumber, head, h] <;> rfl

/-- So does a move to the left. -/
theorem runCode_moveLeft (count : Nat) :
    runCode .moveLeft count = [subNumber head count] := by
  by_cases h : count = 1 <;>
    simp [runCode, buildRun, Build.sub, subNumber, head, h] <;> rfl

/-- A cell is added to once, modulo 256, and by nothing too. -/
theorem runCode_increment (count : Nat) :
    runCode .increment count
      = [addNumber (cell (some .byte)) (count % 256)] := by
  by_cases h : count % 256 = 1 <;>
    simp [runCode, buildRun, Build.add, addNumber, cell, h] <;> rfl

/-- A cell is subtracted from once, modulo 256. -/
theorem runCode_decrement (count : Nat) :
    runCode .decrement count
      = [subNumber (cell (some .byte)) (count % 256)] := by
  by_cases h : count % 256 = 1 <;>
    simp [runCode, buildRun, Build.sub, subNumber, cell, h] <;> rfl

/-- The argument of the calls that write is pushed once. -/
theorem runCode_write (count : Nat) :
    runCode .write count
      = Build.push (cell (some .dword))
          :: (List.replicate count (Build.call writeRoutine)
            ++ [Build.pop (.register ⟨.c, .dword⟩)]) := rfl

/-- Of the characters that are read the last one is stored. -/
theorem runCode_read (count : Nat) :
    runCode .read count
      = List.replicate count (Build.call readRoutine)
          ++ [{ mnemonic := "mov", operands := [cell none, scratch] }] :=
  rfl

/-- A cell is tested as a byte, by way of the scratch register. -/
theorem loopTest_eq :
    loopTest
      = [{ mnemonic := "mov", operands := [scratch, cell none] },
          { mnemonic := "cmp", operands := [scratch, .immediate 0] }] :=
  rfl

/-- The registers are saved and the head goes to the first cell. -/
theorem prologue_eq :
    prologue
      = [Build.enter 0 0, Build.pusha,
          { mnemonic := "xor", operands := [head, head] }] := rfl

/-- The registers come back before the answer is set. -/
theorem epilogue_eq :
    epilogue
      = [Build.popa, { mnemonic := "xor", operands := [answer, answer] },
          Build.leave, Build.ret] := rfl

namespace Options

/-- An instruction with a comment, if comments are on. -/
def comment (o : Options) (text : String) (i : Instruction) :
    Instruction :=
  if o.comments then i.remark text else i

/-- Instructions of which the first has a comment, if comments are
on. -/
def commentFirst (o : Options) (text : String) :
    List Instruction → List Instruction
  | [] => []
  | i :: is => o.comment text i :: is

end Options

/-- A run as a comment names it: its symbol, and its length unless that
is one. -/
def runText (op : Op) (count : Nat) : String :=
  if count = 1 then op.symbol.toString
  else op.symbol.toString ++ " x" ++ toString count

-- ========================================================= generation

/-- The number of the next loop; the state is the number of the loops so
far. -/
def nextLoop : StateT Nat (Except Fault) Nat := do
  modify (· + 1)
  get

/-- The lines of a loop: its test and its jumps around the lines of its
body. -/
def loopLines (o : Options) (number : Nat) (test : List Instruction)
    (within : List Line) : List Line :=
  .label (loopLabel number)
    :: test.map .instruction
    ++ .instruction (o.comment "[" (Build.je (endLabel number)))
    :: within
    ++ [.instruction (o.comment "]" (Build.jmp (loopLabel number))),
      .label (endLabel number)]

/-- Builds the lines of a program. A loop takes its number before the
loops in its body take theirs. -/
def buildBody (o : Options) :
    Program → StateT Nat (Except Fault) (List Line)
  | .done => return []
  | .run op count next => do
    let code ← buildRun op count
    let rest ← buildBody o next
    return (o.commentFirst (runText op count) code).map .instruction
      ++ rest
  | .loop inner next => do
    let number ← nextLoop
    let test ← buildLoopTest
    let within ← buildBody o inner
    let rest ← buildBody o next
    return loopLines o number test within ++ rest

/-- The lines before the first instruction. -/
def header (o : Options) : List Line :=
  [.directive ("extern " ++ writeRoutine ++ ", " ++ readRoutine),
    .directive ("global " ++ entryLabel),
    .directive "segment .data",
    .directive (tapeLabel ++ " times " ++ toString o.tapeSize ++ " db 0"),
    .directive "segment .text",
    .label entryLabel]

/-- Builds a whole assembly text. -/
def buildUnit (o : Options) (p : Program) :
    StateT Nat (Except Fault) (List Line) := do
  let before ← buildPrologue
  let within ← buildBody o p
  let after ← buildEpilogue
  return header o ++ before.map .instruction ++ within
    ++ after.map .instruction

section Generated

variable (o : Options) (loops : Nat)

/-- A run has no part in the count. -/
theorem run_buildBody_run (op : Op) (count : Nat) {next : Program}
    {rest : List Line} {loops' : Nat}
    (hrest : (buildBody o next).run loops = .ok (rest, loops')) :
    (buildBody o (.run op count next)).run loops
      = .ok ((o.commentFirst (runText op count) (runCode op count)).map
          .instruction ++ rest, loops') := by
  rw [buildBody, buildRun_eq, StateT.run_bind]
  show ((buildBody o next).run loops >>= _) = _
  rw [hrest]
  rfl

/-- A loop takes the next number; its body counts on from there, and
what is behind the loop from where the body ends. -/
theorem run_buildBody_loop {inner next : Program}
    {within rest : List Line} {loops' loops'' : Nat}
    (hwithin : (buildBody o inner).run (loops + 1)
      = .ok (within, loops'))
    (hrest : (buildBody o next).run loops' = .ok (rest, loops'')) :
    (buildBody o (.loop inner next)).run loops
      = .ok (loopLines o (loops + 1) loopTest within ++ rest, loops'') := by
  rw [buildBody, buildLoopTest_eq]
  show ((buildBody o inner).run (loops + 1) >>= _) = _
  rw [hwithin]
  show ((buildBody o next).run loops' >>= _) = _
  rw [hrest]
  rfl

/-- Nothing in a program is refused, and the count moves on by the loops
in it. -/
theorem exists_run_buildBody (p : Program) :
    ∃ lines, (buildBody o p).run loops = .ok (lines, loops + p.loops) := by
  induction p generalizing loops with
  | done => exact ⟨[], rfl⟩
  | run op count next ih =>
    obtain ⟨rest, hrest⟩ := ih loops
    exact ⟨_, run_buildBody_run o loops op count hrest⟩
  | loop inner next ihInner ih =>
    obtain ⟨within, hwithin⟩ := ihInner (loops + 1)
    obtain ⟨rest, hrest⟩ := ih (loops + 1 + inner.loops)
    have hcount : loops + (1 + inner.loops + next.loops)
        = loops + 1 + inner.loops + next.loops := by omega
    rw [Program.loops, hcount]
    exact ⟨_, run_buildBody_loop o loops hwithin hrest⟩

theorem run_buildBody_isSome (p : Program) :
    ((buildBody o p).run loops).toOption.isSome :=
  isSome_of_eq_ok (exists_run_buildBody o loops p).choose_spec

/-- The lines of a program, when `loops` loops are numbered before
it. -/
def body (p : Program) : List Line :=
  (((buildBody o p).run loops).toOption.get
    (run_buildBody_isSome o loops p)).1

/-- The generator writes the lines of a program and hands the count of
loops on, with those in the program added to it. -/
theorem run_buildBody (p : Program) :
    (buildBody o p).run loops = .ok (body o loops p, loops + p.loops) := by
  obtain ⟨lines, hlines⟩ := exists_run_buildBody o loops p
  rw [body, get_of_eq_ok hlines]
  exact hlines

@[simp] theorem body_done : body o loops .done = [] := rfl

/-- A run comes before the lines of the rest. -/
theorem body_run (op : Op) (count : Nat) (next : Program) :
    body o loops (.run op count next)
      = (o.commentFirst (runText op count) (runCode op count)).map
          .instruction
        ++ body o loops next := by
  have hrun := run_buildBody_run o loops op count
    (run_buildBody o loops next)
  rw [run_buildBody] at hrun
  exact congrArg Prod.fst (Except.ok.inj hrun)

/-- The rest behind a loop is numbered after all the loops in its
body. -/
theorem body_loop_lines (inner next : Program) :
    body o loops (.loop inner next)
      = loopLines o (loops + 1) loopTest (body o (loops + 1) inner)
        ++ body o (loops + 1 + inner.loops) next := by
  have hloop := run_buildBody_loop o loops
    (run_buildBody o (loops + 1) inner)
    (run_buildBody o (loops + 1 + inner.loops) next)
  rw [run_buildBody] at hloop
  exact congrArg Prod.fst (Except.ok.inj hloop)

/-- What is around a program has no part in the count. -/
theorem run_buildUnit_lines (p : Program) :
    (buildUnit o p).run loops
      = .ok (header o ++ prologue.map .instruction ++ body o loops p
          ++ epilogue.map .instruction, loops + p.loops) := by
  rw [buildUnit, buildPrologue_eq, buildEpilogue_eq]
  show ((buildBody o p).run loops >>= _) = _
  rw [run_buildBody]
  rfl

theorem run_buildUnit_isSome (p : Program) :
    ((buildUnit o p).run loops).toOption.isSome :=
  isSome_of_eq_ok (run_buildUnit_lines o loops p)

/-- A whole assembly text for a program, when `loops` loops are
numbered before it. -/
def unit (p : Program) : List Line :=
  (((buildUnit o p).run loops).toOption.get
    (run_buildUnit_isSome o loops p)).1

/-- A text is the lines of its program between those that every text
has. -/
theorem unit_eq (p : Program) :
    unit o loops p
      = header o ++ prologue.map .instruction ++ body o loops p
        ++ epilogue.map .instruction :=
  congrArg Prod.fst (get_of_eq_ok (run_buildUnit_lines o loops p) _)

/-- Nothing in a text is refused, and the count moves on as it does over
its program. -/
theorem run_buildUnit (p : Program) :
    (buildUnit o p).run loops = .ok (unit o loops p, loops + p.loops) := by
  rw [unit_eq]
  exact run_buildUnit_lines o loops p

end Generated

-- =========================================================== listings

/-- The lines of the programs added so far, and how many loops are
numbered in them. -/
structure Listing where
  options : Options
  lines : List Line := []
  loops : Nat := 0

namespace Listing

/-- The listing with another program at its end, unless a builder
refuses its operands. -/
def build (l : Listing) (p : Program) : Except Fault Listing := do
  let (lines, loops) ← (buildUnit l.options p).run l.loops
  return { l with lines := l.lines ++ lines, loops }

theorem build_lines (l : Listing) (p : Program) :
    l.build p = .ok { l with
      lines := l.lines ++ unit l.options l.loops p
      loops := l.loops + p.loops } := by
  rw [build, run_buildUnit]
  rfl

theorem build_isSome (l : Listing) (p : Program) :
    (l.build p).toOption.isSome :=
  isSome_of_eq_ok (build_lines l p)

/-- The listing with another program at its end. -/
def add (l : Listing) (p : Program) : Listing :=
  (l.build p).toOption.get (build_isSome l p)

/-- No builder refuses its operands in a program. -/
theorem build_eq (l : Listing) (p : Program) :
    l.build p = .ok (l.add p) :=
  eq_ok_get (build_isSome l p)

/-- A program that is added leaves the lines before it as they are and
numbers its loops behind theirs. -/
theorem add_eq (l : Listing) (p : Program) :
    l.add p = { l with
      lines := l.lines ++ unit l.options l.loops p
      loops := l.loops + p.loops } :=
  get_of_eq_ok (build_lines l p) _

@[simp] theorem add_options (l : Listing) (p : Program) :
    (l.add p).options = l.options := by rw [add_eq]

@[simp] theorem add_lines (l : Listing) (p : Program) :
    (l.add p).lines = l.lines ++ unit l.options l.loops p := by
  rw [add_eq]

/-- What a program adds is its own text. -/
theorem drop_add (l : Listing) (p : Program) :
    (l.add p).lines.drop l.lines.length = unit l.options l.loops p := by
  rw [add_lines, List.drop_left]

@[simp] theorem add_loops (l : Listing) (p : Program) :
    (l.add p).loops = l.loops + p.loops := by rw [add_eq]

/-- The listing of one program. -/
def ofProgram (o : Options) (p : Program) : Listing :=
  ({ options := o } : Listing).add p

/-- A program by itself has its loops numbered from one. -/
theorem lines_ofProgram (o : Options) (p : Program) :
    (ofProgram o p).lines = unit o 0 p :=
  add_lines { options := o } p

/-- The lines as the assembler reads them. -/
def texts (l : Listing) : List String :=
  l.lines.map Line.text

theorem texts_ofProgram (o : Options) (p : Program) :
    (ofProgram o p).texts = (unit o 0 p).map Line.text := by
  rw [texts, lines_ofProgram]

/-- The lines as the assembler reads them, unless one cannot be written
down. -/
def render (l : Listing) : Except Fault (List String) :=
  l.lines.mapM Line.render

end Listing

end TapeAsm.Asm
