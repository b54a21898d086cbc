/-
Texts of several programs, put together from texts of one. What a
program adds to a listing is what it has in a listing of its own, but
for the numbers in the labels of its loops: they go on from the loops
that are in the listing already (`Listing.add_renumbered`).

A number is added to in a name (`renumberName`) and so in the lines that
a name stands in, be it to define it or to jump to it; the names of the
tape, the routines and the entry have no number and stay. Numbering the
loops of a program from further on is to renumber its lines
(`map_renumber_body`): that goes by induction on the program, one loop
around its body, and the lines of runs have no part in it.
-/
import Mathlib.Algebra.GroupWithZero.Nat
import Mathlib.Data.List.DropRight
import TapeAsm.Proofs.Asm.Loops

namespace TapeAsm.Asm

-- ============================================================== names

/-- The number that the digits at the end of a name make. -/
def lastNumber (name : String) : Nat :=
  Nat.ofDigitChars 10 (name.toList.rtakeWhile Char.isDigit) 0

/-- A name with `shift` added to its number, if it is a label of a
loop. -/
def renumberName (shift : Nat) (name : String) : String :=
  if name = loopLabel (lastNumber name) then
    loopLabel (lastNumber name + shift)
  else if name = endLabel (lastNumber name) then
    endLabel (lastNumber name + shift)
  else name

/-- The digits behind a text that does not end in one are its
number. -/
theorem lastNumber_append_toString {stem : String}
    (hstem : stem.toList.rtakeWhile Char.isDigit = []) (n : Nat) :
    lastNumber (stem ++ toString n) = n := by
  have hdigits : ∀ c ∈ (Nat.toDigits 10 n).reverse, c.isDigit = true := by
    intro c hc
    rw [List.mem_reverse] at hc
    exact Nat.isDigit_of_mem_toDigits (by decide) (by decide) hc
  have hlast : (stem ++ toString n).toList.rtakeWhile Char.isDigit
      = Nat.toDigits 10 n := by
    rw [List.rtakeWhile, List.reverse_eq_nil_iff] at hstem
    rw [String.toList_append, Nat.toString_eq_repr, Nat.toList_repr,
      List.rtakeWhile, List.reverse_append,
      List.takeWhile_append_of_pos hdigits, hstem, List.append_nil,
      List.reverse_reverse]
  rw [lastNumber, hlast, Nat.ofDigitChars_ten_toDigits]

theorem lastNumber_loopLabel (n : Nat) : lastNumber (loopLabel n) = n :=
  lastNumber_append_toString (by decide) n

theorem lastNumber_endLabel (n : Nat) : lastNumber (endLabel n) = n :=
  lastNumber_append_toString (by decide) n

section Renumber

variable (shift : Nat)

/-- The label at the top of a loop moves on by the shift. -/
theorem renumberName_loopLabel (n : Nat) :
    renumberName shift (loopLabel n) = loopLabel (n + shift) := by
  rw [renumberName, lastNumber_loopLabel, if_pos rfl]

/-- So does the label behind it. -/
theorem renumberName_endLabel (n : Nat) :
    renumberName shift (endLabel n) = endLabel (n + shift) := by
  rw [renumberName, lastNumber_endLabel,
    if_neg (loopLabel_ne_endLabel n n).symm, if_pos rfl]

theorem renumberName_eq_self {name : String}
    (h : ∀ n, ¬ NamesLoop n name) : renumberName shift name = name := by
  rw [renumberName, if_neg fun hname => h _ (.inl hname),
    if_neg fun hname => h _ (.inr hname)]

/-- The names that are not made for a loop stay. -/
theorem renumberName_of_mem_outerNames {name : String}
    (h : name ∈ outerNames) : renumberName shift name = name :=
  renumberName_eq_self shift fun _ hname => hname.not_mem_outerNames h

-- ============================================================== lines

/-- An operand with `shift` added to the number of the loop that it
names. -/
def Operand.renumber : Operand → Operand
  | .label name => .label (renumberName shift name)
  | .register part => .register part
  | .immediate value => .immediate value
  | .memory size buffer index => .memory size buffer index

def Instruction.renumber (i : Instruction) : Instruction :=
  { i with operands := i.operands.map (.renumber shift) }

/-- A line with `shift` added to the numbers of the loops that are named
in it. -/
def Line.renumber : Line → Line
  | .directive text => .directive text
  | .label name => .label (renumberName shift name)
  | .instruction i => .instruction (i.renumber shift)

/-- A comment is put on a line as well before as after. -/
theorem Instruction.renumber_comment (o : Options) (text : String)
    (i : Instruction) :
    (o.comment text i).renumber shift
      = o.comment text (i.renumber shift) := by
  unfold Options.comment
  split
  · rfl
  · rfl

/-- An instruction that names no loop stays as it is. -/
theorem Instruction.renumber_eq_self {i : Instruction}
    (h : ∀ x ∈ i.operands, x.isLabel = true →
      x ∈ outerNames.map .label) : i.renumber shift = i := by
  have hsame : ∀ x ∈ i.operands, x.renumber shift = x := by
    intro x hx
    cases x with
    | register part => rfl
    | immediate value => rfl
    | memory size buffer index => rfl
    | label name =>
        obtain ⟨outer, houter, hname⟩ := List.mem_map.mp (h _ hx rfl)
        rw [Operand.label.inj hname] at houter
        rw [Operand.renumber, renumberName_of_mem_outerNames shift houter]
  rw [renumber, List.map_congr_left hsame, List.map_id']

/-- No instruction of a run names a loop. -/
theorem OfRun.label_mem {op : Op} {count : Nat} {i : Instruction}
    (h : OfRun op count i) : ∀ x ∈ i.operands, x.isLabel = true →
      x ∈ outerNames.map .label := by
  refine of_forms (P := fun i => ∀ x ∈ i.operands, x.isLabel = true →
    x ∈ outerNames.map .label) (by decide) ?_ h
  simp [numberForms, head, cell, Operand.isLabel]

/-- The code of a run stays as it is, with its comment. -/
theorem map_renumber_runLines (o : Options) (op : Op) (count : Nat) :
    ((runLines o op count).map Line.instruction).map
        (Line.renumber shift)
      = (runLines o op count).map Line.instruction := by
  rw [List.map_map]
  refine List.map_congr_left fun i hi => congrArg Line.instruction ?_
  obtain ⟨j, hj, -, hoperands⟩ := ofRun_of_mem_runLines hi
  refine Instruction.renumber_eq_self shift ?_
  rw [hoperands]
  exact hj.label_mem

-- ============================================================== texts

variable (o : Options)

theorem map_renumber_loopTop (number : Nat) :
    (loopTop o number).map (Line.renumber shift)
      = loopTop o (number + shift) := by
  have htest : (loopTest.map Line.instruction).map (Line.renumber shift)
      = loopTest.map Line.instruction := rfl
  rw [loopTop, loopTop, List.map_cons, List.map_append, htest,
    List.map_singleton, Line.renumber, Line.renumber,
    renumberName_loopLabel, Instruction.renumber_comment]
  rw [Build.je, Instruction.renumber, List.map_singleton,
    Operand.renumber, renumberName_endLabel]
  rfl

theorem renumber_jumpBack (number : Nat) :
    (jumpBack o number).renumber shift = jumpBack o (number + shift) := by
  rw [jumpBack, Instruction.renumber_comment, Build.jmp,
    Instruction.renumber, List.map_singleton, Operand.renumber,
    renumberName_loopLabel]
  rfl

/-- The loops of a program are numbered from further on. -/
theorem map_renumber_body (loops : Nat) (p : Program) :
    (body o loops p).map (Line.renumber shift)
      = body o (loops + shift) p := by
  induction p generalizing loops with
  | done => rfl
  | run op count next ih =>
      have hrun := map_renumber_runLines shift o op count
      rw [body_run, List.map_append, body_run, ih]
      exact congrArg (· ++ _) hrun
  | loop inner next ihInner ih =>
      have hloop : (loopCode o (loops + 1) inner).map
            (Line.renumber shift)
          = loopCode o (loops + shift + 1) inner := by
        simp only [loopCode, loopRest, List.map_append,
          map_renumber_loopTop, ihInner, List.map_singleton, Line.renumber,
          renumber_jumpBack, renumberName_endLabel,
          Nat.add_right_comm loops 1 shift]
      have hnumber : loops + 1 + inner.loops + shift
          = loops + shift + 1 + inner.loops := by omega
      rw [body_loop, body_loop, List.map_append, hloop, ih, hnumber]

/-- What is around a program names no loop, so a whole text moves on as its
program does. -/
theorem map_renumber_unit (loops : Nat) (p : Program) :
    (unit o loops p).map (Line.renumber shift)
      = unit o (loops + shift) p := by
  have hentry : renumberName shift entryLabel = entryLabel :=
    renumberName_of_mem_outerNames shift (by decide)
  have hheader : (header o).map (Line.renumber shift) = header o := by
    simp only [header, List.map_cons, List.map_nil, Line.renumber, hentry]
  have hprologue :
      (prologue.map Line.instruction).map (Line.renumber shift)
        = prologue.map Line.instruction := rfl
  have hepilogue :
      (epilogue.map Line.instruction).map (Line.renumber shift)
        = epilogue.map Line.instruction := rfl
  simp only [unit_eq, List.map_append, hheader, hprologue, hepilogue,
    map_renumber_body]

end Renumber

-- =========================================================== listings

/-- A listing has as many loops numbered as the programs in it have. -/
theorem Listing.loops_foldl_add (l : Listing) (ps : List Program) :
    (ps.foldl add l).loops = l.loops + (ps.map Program.loops).sum := by
  induction ps generalizing l with
  | nil => rfl
  | cons p ps ih =>
      rw [List.foldl_cons, ih, List.map_cons, List.sum_cons,
        ← Nat.add_assoc, add_loops]

theorem Listing.options_foldl_add (l : Listing) (ps : List Program) :
    (ps.foldl add l).options = l.options := by
  induction ps generalizing l with
  | nil => rfl
  | cons p ps ih => exact (ih (l.add p)).trans (l.add_options p)

/-- A program that is added to others leaves their lines as they are and
puts behind them the lines that it has by itself, with the loops
numbered on from theirs. To number on is to add to the number in the
labels of loops and to change no other name, and the lines are set in
columns with the labels that they have then. -/
theorem Listing.add_renumbered (o : Options) (ps : List Program)
    (p : Program) :
    let before := ps.foldl add { options := o }
    let shift := (ps.map Program.loops).sum
    let added := (ofProgram o p).lines.map (Line.renumber shift)
    (before.add p).lines = before.lines ++ added
      ∧ (before.add p).texts = before.texts ++ added.map Line.text
      ∧ (∀ n, renumberName shift (loopLabel n) = loopLabel (n + shift))
      ∧ (∀ n, renumberName shift (endLabel n) = endLabel (n + shift))
      ∧ ∀ name, (∀ n, ¬ NamesLoop n name) →
        renumberName shift name = name := by
  intro before shift added
  have hloops : before.loops = 0 + shift := loops_foldl_add _ ps
  have hoptions : before.options = o := options_foldl_add _ ps
  have hadded : added = unit before.options before.loops p := by
    rw [hoptions, hloops, ← map_renumber_unit, ← lines_ofProgram]
  have hlines : (before.add p).lines = before.lines ++ added := by
    rw [hadded, add_lines]
  refine ⟨hlines, ?_, renumberName_loopLabel shift,
    renumberName_endLabel shift, fun _ => renumberName_eq_self shift⟩
  rw [texts, hlines, List.map_append]
  rfl

/-- Behind a text with one loop a loop that is the first of its own
program is the second, in its labels and in the jumps to them, and the
entry keeps its name. -/
theorem Listing.add_renumbered_entry :
    let p : Program := .loop .done .done
    let before := [p].foldl add { options := {} }
    (∀ n, ¬ NamesLoop n entryLabel)
      ∧ renumberName 1 entryLabel = entryLabel
      ∧ ((ofProgram {} p).lines.map Line.text).drop 9 = ["loop_1:",
        "    mov     al, [tape+ebx]", "    cmp     al, 0",
        "    je      end_loop_1                  ; [",
        "    jmp     loop_1                      ; ]", "end_loop_1:",
        "    popa", "    xor     eax, eax", "    leave", "    ret"]
      ∧ ((before.add p).texts.drop before.texts.length).drop 9 = [
        "loop_2:", "    mov     al, [tape+ebx]", "    cmp     al, 0",
        "    je      end_loop_2                  ; [",
        "    jmp     loop_2                      ; ]", "end_loop_2:",
        "    popa", "    xor     eax, eax", "    leave", "    ret"] := by
  intro p before
  have hentry : ∀ n, ¬ NamesLoop n entryLabel :=
    fun n hname => hname.not_mem_outerNames (by decide)
  obtain ⟨-, htexts, -, -, hother⟩ := Listing.add_renumbered {} [p] p
  refine ⟨hentry, hother entryLabel hentry, by decide, ?_⟩
  rw [htexts, List.drop_left]
  decide

/-- A label that gains a digit takes a blank from in front of the
comment. -/
example : (Line.renumber 1 (.instruction (jumpBack {} 9))).text
    = "    jmp     loop_10                     ; ]" := by decide

end TapeAsm.Asm
