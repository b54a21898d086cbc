/-
The labels of an assembly text. The loops of a program are numbered in
reading order, and each number makes two labels; so the labels of a
stretch of code are known by the range its numbers come from
(`mem_labels_body`), and ranges of different stretches do not meet. No
label is defined twice (`nodup_labels_unit`), and then a jump goes to
the one line that defines its label (`target_eq_some`).
-/
import Mathlib.Data.List.Nodup
import TapeAsm.Proofs.Run.Machine

namespace TapeAsm.Asm

-- ============================================================== names

/-- A number can be read back from its digits. -/
private theorem toString_injective :
    Function.Injective (toString : Nat → String) := by
  intro m n h
  have hdigits : Nat.toDigits 10 m = Nat.toDigits 10 n := by
    rw [← Nat.toList_repr, ← Nat.toList_repr]
    exact congrArg String.toList h
  rw [← Nat.ofDigitChars_ten_toDigits (n := m), hdigits,
    Nat.ofDigitChars_ten_toDigits]

/-- Loops of different numbers have different labels at their tops. -/
theorem loopLabel_injective : Function.Injective loopLabel := by
  intro m n h
  exact toString_injective ((String.append_right_inj _).mp h)

/-- They have different labels behind them as well. -/
theorem endLabel_injective : Function.Injective endLabel := by
  intro m n h
  exact toString_injective ((String.append_right_inj _).mp h)

/-- The first character of a name is that of the text it begins
with. -/
private theorem head?_toList_append {s : String} (h : s.toList ≠ [])
    (t : String) : (s ++ t).toList.head? = s.toList.head? := by
  rw [String.toList_append, List.head?_append_of_ne_nil _ h]

theorem head?_loopLabel (n : Nat) :
    (loopLabel n).toList.head? = some 'l' :=
  head?_toList_append (by decide) _

theorem head?_endLabel (n : Nat) :
    (endLabel n).toList.head? = some 'e' :=
  head?_toList_append (by decide) _

/-- Names that begin with different characters are different. -/
private theorem ne_of_head?_ne {s t : String}
    (h : s.toList.head? ≠ t.toList.head?) : s ≠ t := by
  intro heq
  rw [heq] at h
  exact h rfl

/-- The two kinds of label differ in their first letters, whatever the
numbers. -/
theorem loopLabel_ne_endLabel (m n : Nat) : loopLabel m ≠ endLabel n := by
  apply ne_of_head?_ne
  rw [head?_loopLabel, head?_endLabel]
  decide

/-- No loop is entered where the program is. -/
theorem loopLabel_ne_entryLabel (n : Nat) : loopLabel n ≠ entryLabel := by
  apply ne_of_head?_ne
  rw [head?_loopLabel]
  decide

theorem endLabel_ne_entryLabel (n : Nat) : endLabel n ≠ entryLabel := by
  apply ne_of_head?_ne
  rw [head?_endLabel]
  decide

/-- A name is one of the two labels of a loop. -/
def NamesLoop (number : Nat) (name : String) : Prop :=
  name = loopLabel number ∨ name = endLabel number

/-- The labels of a loop tell its number. -/
theorem NamesLoop.number_eq {m n : Nat} {name : String}
    (hm : NamesLoop m name) (hn : NamesLoop n name) : m = n := by
  rcases hm with hm | hm
  · rcases hn with hn | hn
    · exact loopLabel_injective (hm.symm.trans hn)
    · exact absurd (hm.symm.trans hn) (loopLabel_ne_endLabel m n)
  · rcases hn with hn | hn
    · exact absurd (hn.symm.trans hm) (loopLabel_ne_endLabel n m)
    · exact endLabel_injective (hm.symm.trans hn)

/-- The label of the entry is none of a loop. -/
theorem NamesLoop.ne_entryLabel {n : Nat} {name : String}
    (h : NamesLoop n name) : name ≠ entryLabel := by
  rcases h with rfl | rfl
  · exact loopLabel_ne_entryLabel n
  · exact endLabel_ne_entryLabel n

-- ======================================================== definitions

/-- The label that a line defines. -/
def Line.defined? : Line → Option String
  | label name => some name
  | directive _ => none
  | instruction _ => none

/-- The labels that a text defines, in order. -/
def labels (code : List Line) : List String :=
  code.filterMap Line.defined?

@[simp] theorem labels_nil : labels [] = [] := rfl

@[simp] theorem labels_label (name : String) (code : List Line) :
    labels (.label name :: code) = name :: labels code := rfl

@[simp] theorem labels_instruction (i : Instruction) (code : List Line) :
    labels (.instruction i :: code) = labels code := rfl

@[simp] theorem labels_append (code code' : List Line) :
    labels (code ++ code') = labels code ++ labels code' :=
  List.filterMap_append

/-- Instructions define no labels. -/
@[simp] theorem labels_instructions (is : List Instruction) :
    labels (is.map .instruction) = [] := by
  induction is with
  | nil => rfl
  | cons i is ih => rw [List.map_cons, labels_instruction, ih]

variable (o : Options)

/-- A run defines no label. -/
theorem labels_body_run (loops : Nat) (op : Op) (count : Nat)
    (next : Program) :
    labels (body o loops (.run op count next))
      = labels (body o loops next) := by
  rw [body_run, labels_append, labels_instructions, List.nil_append]

/-- A loop defines its two labels around those of its body. -/
theorem labels_body_loop (loops : Nat) (inner next : Program) :
    labels (body o loops (.loop inner next))
      = loopLabel (loops + 1) :: (labels (body o (loops + 1) inner)
        ++ endLabel (loops + 1)
        :: labels (body o (loops + 1 + inner.loops) next)) := by
  simp [body_loop_lines, loopLines]

/-- What is around a program defines the label of the entry only. -/
theorem labels_unit (loops : Nat) (p : Program) :
    labels (unit o loops p) = entryLabel :: labels (body o loops p) := by
  have hheader : labels (header o) = [entryLabel] := rfl
  rw [unit_eq, labels_append, labels_append, labels_append, hheader,
    labels_instructions, labels_instructions, List.append_nil,
    List.append_nil, List.singleton_append]

/-- The labels of a program are made from the numbers of its loops. -/
theorem mem_labels_body {name : String} {loops : Nat} {p : Program}
    (h : name ∈ labels (body o loops p)) :
    ∃ n, loops < n ∧ n ≤ loops + p.loops ∧ NamesLoop n name := by
  induction p generalizing loops with
  | done => cases h
  | run op count next ih =>
      rw [labels_body_run] at h
      exact ih h
  | loop inner next ihInner ih =>
      rw [labels_body_loop] at h
      simp only [List.mem_cons, List.mem_append] at h
      rw [Program.loops]
      rcases h with h | h | h | h
      · exact ⟨loops + 1, by omega, by omega, .inl h⟩
      · obtain ⟨n, hlow, hhigh, hname⟩ := ihInner h
        exact ⟨n, by omega, by omega, hname⟩
      · exact ⟨loops + 1, by omega, by omega, .inr h⟩
      · obtain ⟨n, hlow, hhigh, hname⟩ := ih h
        exact ⟨n, by omega, by omega, hname⟩

/-- The labels of a loop that is numbered before a program are not among
those of the program. -/
private theorem not_mem_labels_body {name : String} {n loops : Nat}
    (hname : NamesLoop n name) (h : n ≤ loops) (p : Program) :
    name ∉ labels (body o loops p) := by
  intro hmem
  obtain ⟨m, hlow, -, hname'⟩ := mem_labels_body o hmem
  have heq := hname.number_eq hname'
  omega

/-- No label of a program is defined twice. -/
theorem nodup_labels_body (loops : Nat) (p : Program) :
    (labels (body o loops p)).Nodup := by
  induction p generalizing loops with
  | done => exact List.nodup_nil
  | run op count next ih =>
      rw [labels_body_run]
      exact ih loops
  | loop inner next ihInner ih =>
      rw [labels_body_loop, List.nodup_cons, List.nodup_append',
        List.nodup_cons, List.disjoint_cons_right]
      have hloop : NamesLoop (loops + 1) (loopLabel (loops + 1)) := .inl rfl
      have hend : NamesLoop (loops + 1) (endLabel (loops + 1)) := .inr rfl
      have hle : loops + 1 ≤ loops + 1 + inner.loops := by omega
      refine ⟨?_, ihInner _, ⟨?_, ih _⟩, ?_, ?_⟩
      · simp only [List.mem_append, List.mem_cons, not_or]
        exact ⟨not_mem_labels_body o hloop (Nat.le_refl _) inner,
          loopLabel_ne_endLabel _ _, not_mem_labels_body o hloop hle next⟩
      · exact not_mem_labels_body o hend hle next
      · exact not_mem_labels_body o hend (Nat.le_refl _) inner
      · -- the numbers of the body end where those of the rest begin
        intro name hinner hnext
        obtain ⟨m, -, hhigh, hname⟩ := mem_labels_body o hinner
        exact not_mem_labels_body o hname hhigh next hnext

/-- No label of a whole text is defined twice. -/
theorem nodup_labels_unit (loops : Nat) (p : Program) :
    (labels (unit o loops p)).Nodup := by
  rw [labels_unit, List.nodup_cons]
  refine ⟨fun hmem => ?_, nodup_labels_body o loops p⟩
  obtain ⟨n, -, -, hname⟩ := mem_labels_body o hmem
  exact hname.ne_entryLabel rfl

-- ============================================================ targets

/-- Where no label is defined twice, a jump goes to the line that
defines its label. -/
theorem target_eq_some {code : List Line} (h : (labels code).Nodup)
    {line : Nat} {name : String}
    (hline : code[line]? = some (.label name)) :
    Machine.target code name = some line := by
  obtain ⟨hlt, hget⟩ := List.getElem?_eq_some_iff.mp hline
  rw [Machine.target, List.idxOf?, List.findIdx?_eq_some_iff_getElem]
  refine ⟨hlt, by simp [hget], ?_⟩
  intro j hj hname
  have hpair := List.pairwise_iff_getElem.mp (List.pairwise_filterMap.mp h)
  refine hpair j line (by omega) hlt hj name ?_ name ?_ rfl
  · rw [eq_of_beq hname]
    rfl
  · rw [hget]
    rfl

end TapeAsm.Asm
