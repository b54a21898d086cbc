/-
Reading the text of an instruction back. A reader finds the mnemonic as
the first word of a line, the operands behind the blanks that follow it,
and the comment behind the mark (`Columns.ofText`). The comment always
comes back: at least one blank and a mark stand in front of it, however
long the code is. The column of mnemonics has no such blank. A mnemonic
that fills its column runs into the operands, so what comes back is the
instruction exactly if the mnemonic is shorter, or there are no operands
(`Instruction.readBack_text`).

All that is asked of an instruction is that its parts can be told from
what is set between them (`Instruction.Legible`). White space is that of
Unicode, but columns are set with blanks.
-/
import TapeAsm.Proofs.Asm.Choices

namespace TapeAsm.Asm

-- ============================================================= reading

/-- The white space of Unicode, as ranges of code points. -/
def spaces : List (Nat × Nat) :=
  [(0x9, 0xD), (0x20, 0x20), (0x85, 0x85), (0xA0, 0xA0),
   (0x1680, 0x1680), (0x2000, 0x200A), (0x2028, 0x2029),
   (0x202F, 0x202F), (0x205F, 0x205F), (0x3000, 0x3000)]

/-- Whether a character is white space. -/
def isSpace (c : Char) : Bool :=
  Text.inRanges spaces c.toNat

/-- The first word of a text. -/
def leadingWord (cs : List Char) : List Char :=
  (cs.dropWhile isSpace).takeWhile (!isSpace ·)

/-- What stands behind the blanks that follow the first word. -/
def behindWord (cs : List Char) : List Char :=
  ((cs.dropWhile isSpace).dropWhile (!isSpace ·)).dropWhile (· = ' ')

/-- The parts of a line of text. -/
structure Columns where
  mnemonic : String
  operands : String
  comment : Option String

/-- A line taken apart: up to the first semicolon, and without the blanks
around that, it is the mnemonic, blanks and the operands. -/
def Columns.ofText (line : String) : Columns :=
  let code := (stripped line).toList.dropWhile (· = ' ')
  { mnemonic := .ofList (leadingWord code)
    operands := .ofList (behindWord code)
    comment := comment? line }

example : (Columns.ofText "    add     ebx, 3       ; >; x3").operands
    = "ebx, 3" := rfl

-- =============================================================== words

section Words

variable {w : List Char} (hw : ∀ c ∈ w, isSpace c = false)
include hw

theorem dropWhile_isSpace_word (hne : w ≠ []) (cs : List Char) :
    (w ++ cs).dropWhile isSpace = w ++ cs := by
  cases w with
  | nil => exact absurd rfl hne
  | cons c w =>
      have hc := hw c List.mem_cons_self
      rw [List.cons_append, List.dropWhile_cons_of_neg (by simp [hc])]

/-- A word that goes on behind its end is longer. -/
theorem leadingWord_append (hne : w ≠ []) (cs : List Char) :
    leadingWord (w ++ cs) = w ++ cs.takeWhile (!isSpace ·) := by
  rw [leadingWord, dropWhile_isSpace_word hw hne,
    List.takeWhile_append_of_pos (by simpa using hw)]

theorem behindWord_append (hne : w ≠ []) (cs : List Char) :
    behindWord (w ++ cs)
      = (cs.dropWhile (!isSpace ·)).dropWhile (· = ' ') := by
  rw [behindWord, dropWhile_isSpace_word hw hne,
    List.dropWhile_append_of_pos (by simpa using hw)]

end Words

-- ============================================================== marks

section Marks

variable {l : Line} (hcode : ';' ∉ l.code.toList)
include hcode

/-- Where there is no semicolon in the code, one comes with a comment. -/
theorem semicolon_mem_text_iff :
    ';' ∈ l.text.toList ↔ l.remark?.isSome = true := by
  cases hremark : l.remark? with
  | none => simp [l.text_of_remark?_eq_none hremark, hcode]
  | some remark =>
      obtain ⟨blanks, htext⟩ := Line.toList_text_of_remark?_eq_some hremark
      simp [htext]

/-- What stands in front of the first one ends in a blank. -/
theorem getLast?_uncommented_text (h : ';' ∈ l.text.toList) :
    (uncommented l.text).toList.getLast? = some ' ' := by
  obtain ⟨remark, hremark⟩ :=
    Option.isSome_iff_exists.mp ((semicolon_mem_text_iff hcode).mp h)
  obtain ⟨blanks, htext⟩ := Line.toList_text_of_remark?_eq_some hremark
  rw [toList_uncommented (semicolon_not_mem_append_blanks hcode _) htext,
    List.replicate_succ', ← List.append_assoc, List.getLast?_concat]

end Marks

-- ======================================================== instructions

/-- An operand whose text can be told from blanks and a comment. -/
structure Operand.Legible (x : Operand) : Prop where
  /-- It can be written down. -/
  fault : x.fault? = none
  ne_empty : x.text.toList ≠ []
  mark : ';' ∉ x.text.toList
  /-- It begins with no blank and ends in none. -/
  front : x.text.toList.head? ≠ some ' '
  back : Tight x.text

namespace Instruction

/-- An instruction whose parts can be told from what is set between
them. -/
structure Legible (i : Instruction) : Prop where
  ne_empty : i.mnemonic.toList ≠ []
  word : ∀ c ∈ i.mnemonic.toList, isSpace c = false
  mark : ';' ∉ i.mnemonic.toList
  operands : ∀ x ∈ i.operands, x.Legible

/-- The operands do not begin right behind the mnemonic, unless with a
space of their own. -/
def Parted (i : Instruction) : Prop :=
  i.operands = [] ∨ i.mnemonic.length < mnemonicWidth
    ∨ ∃ c, i.operandText.toList.head? = some c ∧ isSpace c = true

/-- What a reader finds in the text of an instruction. -/
structure ReadBack (i : Instruction) (text : String) : Prop where
  /-- It finds the mnemonic and the operands exactly if they are
  parted. -/
  code_iff : ((Columns.ofText text).mnemonic = i.mnemonic
      ∧ (Columns.ofText text).operands = i.operandText) ↔ i.Parted
  /-- It finds the comment, or that there is none. -/
  comment : (Columns.ofText text).comment = i.comment
  /-- Only a comment brings a semicolon, -/
  mark_iff : ';' ∈ text.toList ↔ i.comment.isSome = true
  /-- and the first one has a blank in front. -/
  gap : ';' ∈ text.toList →
    (uncommented text).toList.getLast? = some ' '

variable {i : Instruction}

-- ============================================================ operands

/-- Texts in a row begin as the first one does. -/
theorem head?_intercalate {sep row : List Char} (h : row ≠ [])
    (rows : List (List Char)) :
    (sep.intercalate (row :: rows)).head? = row.head? := by
  cases rows with
  | nil => rw [List.intercalate_singleton]
  | cons next rows =>
      rw [List.intercalate_cons_cons, List.append_assoc,
        List.head?_append_of_ne_nil _ h]

/-- Texts in a row end as one of them does. -/
theorem getLast?_intercalate {sep : List Char} {rows : List (List Char)}
    (hrows : rows ≠ []) (h : ∀ row ∈ rows, row ≠ []) :
    ∃ row ∈ rows, (sep.intercalate rows).getLast? = row.getLast? := by
  induction rows with
  | nil => exact absurd rfl hrows
  | cons row rows ih =>
      cases rows with
      | nil => exact ⟨row, List.mem_cons_self, by simp⟩
      | cons next rows =>
          obtain ⟨hrow, hrest⟩ := List.forall_mem_cons.mp h
          obtain ⟨last, hlast, heq⟩ := ih (List.cons_ne_nil _ _) hrest
          have hne : sep.intercalate (next :: rows) ≠ [] := by
            intro hnil
            rw [hnil, List.getLast?_nil, eq_comm,
              List.getLast?_eq_none_iff] at heq
            exact hrest last hlast heq
          refine ⟨last, List.mem_cons_of_mem _ hlast, ?_⟩
          rw [List.intercalate_cons_cons,
            List.getLast?_append_of_ne_nil _ hne, heq]

theorem toList_operandText (i : Instruction) :
    i.operandText.toList
      = [',', ' '].intercalate (i.operands.map (·.text.toList)) := by
  rw [operandText, String.toList_intercalate, List.map_map]
  rfl

namespace Legible

variable (h : i.Legible)
include h

/-- The operands together begin with no blank, -/
theorem head?_operandText : i.operandText.toList.head? ≠ some ' ' := by
  rw [toList_operandText]
  cases hoperands : i.operands with
  | nil => exact nofun
  | cons x xs =>
      have hx := h.operands x (hoperands ▸ List.mem_cons_self)
      rw [List.map_cons, head?_intercalate hx.ne_empty]
      exact hx.front

/-- and end in none. -/
theorem tight_operandText : Tight i.operandText := by
  unfold Tight
  rw [toList_operandText]
  by_cases hnil : i.operands.map (·.text.toList) = []
  · rw [hnil]
    exact nofun
  · have hne : ∀ row ∈ i.operands.map (·.text.toList), row ≠ [] := by
      intro row hrow
      obtain ⟨x, hx, rfl⟩ := List.mem_map.mp hrow
      exact (h.operands x hx).ne_empty
    obtain ⟨row, hrow, heq⟩ := getLast?_intercalate hnil hne
    obtain ⟨x, hx, rfl⟩ := List.mem_map.mp hrow
    rw [heq]
    exact (h.operands x hx).back

theorem operandText_ne (hoperands : i.operands ≠ []) :
    i.operandText.toList ≠ [] := by
  rw [toList_operandText]
  obtain ⟨x, xs, hcons⟩ := List.exists_cons_of_ne_nil hoperands
  have hx := h.operands x (hcons ▸ List.mem_cons_self)
  intro hnil
  have hhead := congrArg List.head? hnil
  rw [hcons, List.map_cons, head?_intercalate hx.ne_empty, List.head?_nil,
    List.head?_eq_none_iff] at hhead
  exact hx.ne_empty hhead

theorem semicolon_not_mem_operandText : ';' ∉ i.operandText.toList := by
  rw [toList_operandText]
  intro hmem
  rcases mem_intercalate hmem with hsep | ⟨row, hrow, hc⟩
  · revert hsep
    decide
  · obtain ⟨x, hx, rfl⟩ := List.mem_map.mp hrow
    exact (h.operands x hx).mark hc

end Legible

-- ================================================================ code

/-- What stands behind the mnemonic. -/
def behindMnemonic (i : Instruction) : List Char :=
  if i.operands = [] then []
  else List.replicate (mnemonicWidth - i.mnemonic.length) ' '
    ++ i.operandText.toList

theorem toList_code (i : Instruction) :
    i.code.toList
      = List.replicate 4 ' ' ++ (i.mnemonic.toList ++ i.behindMnemonic) := by
  have hindent : indent.toList = List.replicate 4 ' ' := rfl
  unfold code behindMnemonic
  split
  next hnil => simp [hindent, hnil]
  next hne =>
    rw [if_neg hne]
    simp [hindent, Text.toList_padRight]

/-- The words of the code are the mnemonic and those of the operands, if
the mnemonic leaves a blank in its column. -/
theorem words_code (hword : IsWord i.mnemonic)
    (hshort : i.mnemonic.length < mnemonicWidth) :
    words i.code.toList
      = i.mnemonic.toList :: words i.operandText.toList := by
  rw [toList_code, words_blanks_append]
  unfold behindMnemonic
  split
  next hnil =>
    rw [List.append_nil, hword.words_eq]
    simp [operandText, hnil, words]
  next =>
    obtain ⟨blanks, hblanks⟩ :=
      Nat.exists_add_one_eq.mpr (Nat.sub_pos_of_lt hshort)
    rw [← hblanks, List.replicate_succ, List.cons_append,
      words_append_blank, words_blanks_append, hword.words_eq]
    rfl

namespace Legible

variable (h : i.Legible)
include h

theorem semicolon_not_mem_code : ';' ∉ i.code.toList := by
  have hbehind : ';' ∉ i.behindMnemonic := by
    unfold behindMnemonic
    split
    · exact List.not_mem_nil
    · simp [h.semicolon_not_mem_operandText]
  rw [toList_code]
  simp [h.mark, hbehind]

/-- A blank is in no word. -/
theorem ne_blank_of_mem_mnemonic : ∀ c ∈ i.mnemonic.toList, c ≠ ' ' := by
  rintro c hc rfl
  cases h.word ' ' hc

theorem tight_code : Tight i.code := by
  unfold Tight
  rw [toList_code, List.getLast?_append_of_ne_nil _
    (List.append_ne_nil_of_left_ne_nil h.ne_empty _)]
  unfold behindMnemonic
  split
  · rw [List.append_nil]
    intro hlast
    exact h.ne_blank_of_mem_mnemonic ' ' (List.mem_of_getLast? hlast) rfl
  next hoperands =>
    rw [← List.append_assoc,
      List.getLast?_append_of_ne_nil _ (h.operandText_ne hoperands)]
    exact h.tight_operandText

/-- A reader that leaves the indent out begins with the mnemonic. -/
theorem dropWhile_stripped_text :
    (stripped i.text).toList.dropWhile (· = ' ')
      = i.mnemonic.toList ++ i.behindMnemonic := by
  have hstripped : stripped i.text = i.code :=
    stripped_text (l := .instruction i) h.semicolon_not_mem_code h.tight_code
  have hindent : ∀ c ∈ List.replicate 4 ' ', decide (c = ' ') = true := by
    simp
  obtain ⟨c, cs, hmnemonic⟩ := List.exists_cons_of_ne_nil h.ne_empty
  have hc : c ≠ ' ' :=
    h.ne_blank_of_mem_mnemonic c (hmnemonic ▸ List.mem_cons_self)
  rw [hstripped, toList_code, List.dropWhile_append_of_pos hindent,
    hmnemonic, List.cons_append, List.dropWhile_cons_of_neg (by simp [hc])]

/-- No part of the operands joins the mnemonic exactly if they are
parted. -/
theorem takeWhile_behindMnemonic :
    i.behindMnemonic.takeWhile (!isSpace ·) = [] ↔ i.Parted := by
  have hhead : i.behindMnemonic.takeWhile (!isSpace ·) = []
      ↔ ∀ c, i.behindMnemonic.head? = some c → isSpace c = true := by
    rw [← List.head?_eq_none_iff, List.head?_takeWhile,
      Option.filter_eq_none_iff]
    simp
  rw [hhead]
  unfold behindMnemonic Parted
  by_cases hoperands : i.operands = []
  · simp [hoperands]
  rw [if_neg hoperands]
  by_cases hshort : i.mnemonic.length < mnemonicWidth
  · -- the first of the blanks that fill the column
    obtain ⟨blanks, hblanks⟩ :=
      Nat.exists_add_one_eq.mpr (Nat.sub_pos_of_lt hshort)
    have hspace : isSpace ' ' = true := rfl
    simp [← hblanks, List.replicate_succ, hspace, hshort]
  · -- the first of the operands themselves
    have hfull : mnemonicWidth - i.mnemonic.length = 0 :=
      Nat.sub_eq_zero_of_le (Nat.le_of_not_lt hshort)
    obtain ⟨c, cs, htext⟩ :=
      List.exists_cons_of_ne_nil (h.operandText_ne hoperands)
    simp [hfull, htext, hoperands, hshort]

/-- Behind blanks the operands begin, as no blank is theirs. -/
theorem dropWhile_behindMnemonic :
    i.behindMnemonic.dropWhile (· = ' ') = i.operandText.toList := by
  unfold behindMnemonic
  split
  next hnil => simp [operandText, hnil]
  next hoperands =>
    obtain ⟨c, cs, htext⟩ :=
      List.exists_cons_of_ne_nil (h.operandText_ne hoperands)
    have hc : c ≠ ' ' := by
      rintro rfl
      exact h.head?_operandText (by rw [htext, List.head?_cons])
    rw [List.dropWhile_append_of_pos (by simp), htext,
      List.dropWhile_cons_of_neg (by simp [hc])]

theorem fault?_eq_none : i.fault? = none := by
  rw [fault?, List.findSome?_eq_none_iff]
  exact fun x hx => (h.operands x hx).fault

end Legible

/-- A reader finds what stands up to the end of the first word, which is
the mnemonic exactly if the operands are parted from it. -/
theorem ofText_iff_parted (h : i.Legible) :
    ((Columns.ofText i.text).mnemonic = i.mnemonic
      ∧ (Columns.ofText i.text).operands = i.operandText) ↔ i.Parted := by
  have hword : (Columns.ofText i.text).mnemonic.toList
      = i.mnemonic.toList ++ i.behindMnemonic.takeWhile (!isSpace ·) := by
    rw [Columns.ofText, h.dropWhile_stripped_text, String.toList_ofList,
      leadingWord_append h.word h.ne_empty]
  have hbehind : (Columns.ofText i.text).operands.toList
      = (i.behindMnemonic.dropWhile (!isSpace ·)).dropWhile (· = ' ') := by
    rw [Columns.ofText, h.dropWhile_stripped_text, String.toList_ofList,
      behindWord_append h.word h.ne_empty]
  rw [← h.takeWhile_behindMnemonic, ← String.toList_inj,
    ← String.toList_inj, hword, hbehind, List.append_right_eq_self]
  refine and_iff_left_of_imp fun hnil => ?_
  have hkept := List.takeWhile_append_dropWhile
    (p := (!isSpace ·)) (l := i.behindMnemonic)
  rw [hnil, List.nil_append] at hkept
  rw [hkept, h.dropWhile_behindMnemonic]

/-- A legible instruction is written down, its comment is found again,
and so are its mnemonic and its operands if they are parted. -/
theorem readBack_text (h : i.Legible) :
    ∃ text, (Line.instruction i).render = .ok text ∧ i.ReadBack text := by
  have hcode : ';' ∉ (Line.instruction i).code.toList :=
    h.semicolon_not_mem_code
  refine ⟨i.text, ?_, ofText_iff_parted h, comment?_text hcode,
    semicolon_mem_text_iff hcode, getLast?_uncommented_text hcode⟩
  rw [Line.render, Line.fault?, h.fault?_eq_none]
  rfl

/-- A mnemonic that is one letter too long. -/
theorem readBack_text_long :
    let i : Instruction :=
      { mnemonic := "cmpxchg8b", operands := [cell none] }
    i.Legible ∧ ∃ text, (Line.instruction i).render = .ok text
      ∧ ¬ ((Columns.ofText text).mnemonic = i.mnemonic
        ∧ (Columns.ofText text).operands = i.operandText) := by
  intro i
  have hcell : (cell none).Legible :=
    ⟨rfl, by decide, by decide, by decide, by decide⟩
  have hword : ∀ c ∈ i.mnemonic.toList, isSpace c = false := by
    simp [i, isSpace, Text.inRanges, spaces]
  have hlegible : i.Legible :=
    ⟨by decide, hword, by decide, by simpa [i] using hcell⟩
  obtain ⟨text, htext, hback⟩ := readBack_text hlegible
  refine ⟨hlegible, text, htext, hback.code_iff.not.mpr ?_⟩
  rintro (hnil | hshort | ⟨c, hc, hspace⟩)
  · cases hnil
  · revert hshort
    decide
  · have hhead : i.operandText.toList.head? = some '[' := by
      rw [toList_operandText]
      rfl
    obtain rfl := Option.some.inj (hhead.symm.trans hc)
    cases hspace

end Instruction

end TapeAsm.Asm
