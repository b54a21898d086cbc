/-
The characters of an assembly text. Without its comment, a line is made
of letters, digits, blanks and a few marks (`isCode_unit`). A semicolon
is not among them, nor is a line feed; so a comment can be told from the
code in front of it, and a line from the next.
-/
import TapeAsm.Proofs.Asm.Placement

namespace TapeAsm.Asm

-- ========================================================= characters

/-- The characters that code is made of. -/
def isCodeChar (c : Char) : Bool :=
  c.isAlphanum || c ∈ [' ', ',', '.', ':', '_', '[', ']', '+']

/-- A text of such characters. -/
def IsCode (s : String) : Prop :=
  ∀ c ∈ s.toList, isCodeChar c = true

instance (s : String) : Decidable (IsCode s) :=
  List.decidableBAll (fun c => isCodeChar c = true) s.toList

/-- A character of texts in a row is one of theirs or of what is between
them. -/
theorem mem_intercalate {α : Type} {c : α} {sep : List α}
    {rows : List (List α)} (h : c ∈ sep.intercalate rows) :
    c ∈ sep ∨ ∃ row ∈ rows, c ∈ row := by
  induction rows with
  | nil => cases h
  | cons row rows ih =>
      cases rows with
      | nil =>
          rw [List.intercalate_singleton] at h
          exact .inr ⟨row, List.mem_cons_self, h⟩
      | cons next rows =>
          rw [List.intercalate_cons_cons, List.mem_append,
            List.mem_append] at h
          rcases h with (h | h) | h
          · exact .inr ⟨row, List.mem_cons_self, h⟩
          · exact .inl h
          · rcases ih h with hsep | ⟨later, hlater, hc⟩
            · exact .inl hsep
            · exact .inr ⟨later, List.mem_cons_of_mem _ hlater, hc⟩

namespace IsCode

/-- One text behind the other. -/
theorem append {s t : String} (hs : IsCode s) (ht : IsCode t) :
    IsCode (s ++ t) := by
  intro c hc
  rw [String.toList_append, List.mem_append] at hc
  exact hc.elim (hs c) (ht c)

/-- The digits of a number. -/
theorem toString (n : Nat) : IsCode (toString n) := by
  intro c hc
  rw [Nat.toString_eq_repr, Nat.toList_repr] at hc
  have hdigit := Nat.isDigit_of_mem_toDigits (by decide) (by decide) hc
  rw [isCodeChar, Char.isAlphanum, hdigit, Bool.or_true, Bool.true_or]

/-- A text that is filled up with blanks. -/
theorem padRight {s : String} (h : IsCode s) (width : Nat) :
    IsCode (Text.padRight width s) := by
  intro c hc
  rw [Text.toList_padRight, List.mem_append] at hc
  rcases hc with hc | hc
  · exact h c hc
  · rw [List.eq_of_mem_replicate hc]
    rfl

/-- Texts in a row, a separator between each two of them. -/
theorem intercalate {sep : String} (hsep : IsCode sep) {ss : List String}
    (h : ∀ s ∈ ss, IsCode s) : IsCode (sep.intercalate ss) := by
  intro c hc
  rw [String.toList_intercalate] at hc
  rcases mem_intercalate hc with hc | ⟨row, hrow, hc⟩
  · exact hsep c hc
  · obtain ⟨s, hs, rfl⟩ := List.mem_map.mp hrow
    exact h s hs c hc

/-- A character that code is not made of is not in it. -/
theorem not_mem {s : String} (h : IsCode s) {c : Char}
    (hc : isCodeChar c = false) : c ∉ s.toList := by
  intro hmem
  rw [h c hmem] at hc
  cases hc

end IsCode

-- =============================================================== code

namespace Instruction

/-- The code of an instruction is in its mnemonic and its operands. -/
theorem code_congr {i j : Instruction} (hmnemonic : i.mnemonic = j.mnemonic)
    (hoperands : i.operands = j.operands) : i.code = j.code := by
  rw [code, code, operandText, operandText, hmnemonic, hoperands]

/-- It is the same with a comment and without. -/
theorem code_comment (o : Options) (text : String) (i : Instruction) :
    (o.comment text i).code = i.code :=
  code_congr (comment_mnemonic ..) (comment_operands ..)

/-- An instruction is code if its parts are. -/
theorem isCode_code {i : Instruction} (hmnemonic : IsCode i.mnemonic)
    (hoperands : ∀ x ∈ i.operands, IsCode x.text) : IsCode i.code := by
  have htext : IsCode i.operandText := by
    refine .intercalate (by decide) fun s hs => ?_
    obtain ⟨x, hx, rfl⟩ := List.mem_map.mp hs
    exact hoperands x hx
  have hindent : IsCode indent := by decide
  unfold code
  split
  · exact hindent.append hmnemonic
  · exact (hindent.append (hmnemonic.padRight _)).append htext

end Instruction

/-- A line without its comment. -/
def Line.code : Line → String
  | directive text => text
  | label name => name ++ ":"
  | instruction i => i.code

theorem isCode_loopLabel (number : Nat) : IsCode (loopLabel number) :=
  .append (by decide) (.toString number)

theorem isCode_endLabel (number : Nat) : IsCode (endLabel number) :=
  .append (by decide) (.toString number)

/-- The instructions of runs are code, whatever the counts. -/
theorem OfRun.isCode {op : Op} {count : Nat} {i : Instruction}
    (h : OfRun op count i) : IsCode i.code := by
  refine of_forms (P := fun i => IsCode i.code) (by decide) ?_ h
  intro n i hi
  have hmnemonic : i.mnemonic ∈ ["add", "sub", "add", "sub"] :=
    List.mem_map_of_mem hi
  have hoperands : ∀ i ∈ numberForms n, ∀ x ∈ i.operands,
      x ∈ [head, cell (some .byte)] ∨ x = .immediate n := by
    simp [numberForms]
  have hname : ∀ name ∈ ["add", "sub", "add", "sub"], IsCode name := by
    decide
  have hplace : ∀ x ∈ [head, cell (some .byte)], IsCode x.text := by
    decide
  refine Instruction.isCode_code (hname _ hmnemonic) fun x hx => ?_
  rcases hoperands i hi x hx with hx | rfl
  · exact hplace x hx
  · exact .toString n

-- ============================================================== texts

/-- A jump with a label that is code is code. -/
theorem isCode_jump {mnemonic name : String} (hmnemonic : IsCode mnemonic)
    (hname : IsCode name) :
    IsCode (Instruction.code { mnemonic, operands := [.label name] }) := by
  refine Instruction.isCode_code hmnemonic fun x hx => ?_
  rw [List.mem_singleton.mp hx]
  exact hname

variable (o : Options)

/-- The lines before the first instruction are code; the size of the tape
is written in digits. -/
theorem isCode_header : ∀ l ∈ header o, IsCode l.code := by
  have htape : IsCode (tapeLabel ++ " times " ++ toString o.tapeSize
      ++ " db 0") :=
    (IsCode.append (by decide) (.toString _)).append (by decide)
  simp only [header, List.forall_mem_cons]
  exact ⟨by decide, by decide, by decide, htape, by decide, by decide,
    fun l hl => nomatch hl⟩

/-- The lines of a program are code. -/
theorem isCode_body (loops : Nat) (p : Program) :
    ∀ l ∈ body o loops p, IsCode l.code := by
  have hcolon : IsCode ":" := by decide
  refine forall_mem_body ?_ ?_ ?_ ?_ ?_ ?_ loops p
  · intro op count i hi
    obtain ⟨j, hj, hmnemonic, hoperands⟩ := ofRun_of_mem_runLines hi
    show IsCode i.code
    rw [Instruction.code_congr hmnemonic hoperands]
    exact hj.isCode
  · exact fun number => (isCode_loopLabel number).append hcolon
  · decide
  · intro number
    show IsCode (o.comment _ _).code
    rw [Instruction.code_comment]
    exact isCode_jump (by decide) (isCode_endLabel number)
  · intro number
    show IsCode (o.comment _ _).code
    rw [Instruction.code_comment]
    exact isCode_jump (by decide) (isCode_loopLabel number)
  · exact fun number => (isCode_endLabel number).append hcolon

/-- Without comments, a text is made of few characters. -/
theorem isCode_unit (loops : Nat) (p : Program) :
    ∀ l ∈ unit o loops p, IsCode l.code := by
  simp only [unit_eq, List.forall_mem_append]
  exact ⟨⟨⟨isCode_header o, by decide⟩, isCode_body o loops p⟩, by decide⟩

end TapeAsm.Asm
