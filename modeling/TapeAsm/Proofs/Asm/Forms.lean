/-
The forms of the lines of an assembly text. Without its comment, and
with its blanks collapsed (`plain`), every line is one of a few: the
lines around a program, those of a run of the program, and those of one
of its loops (`Form`). So an assembler meets no instruction and no pair
of operands beyond these, and no line that breaks in two.

A line is taken apart into words, and the words of a line are those of
its parts (`words_append_blank`): the fixed part of a form is computed,
and a number or a name behind it is one word more.
-/
import Mathlib.Data.List.TakeWhile
import TapeAsm.Proofs.Asm.Building
import TapeAsm.Proofs.Asm.Comments

namespace TapeAsm.Asm

-- ============================================================== words

/-- The parts of a line between its blanks. -/
def words (cs : List Char) : List (List Char) :=
  (cs.splitOnP (· == ' ')).filter (· ≠ [])

/-- A line without the blanks around it, and with one blank in the place
of several. -/
def collapsed (line : String) : String :=
  String.ofList ([' '].intercalate (words line.toList))

/-- A line up to its comment. -/
def uncommented (line : String) : String :=
  String.ofList (line.toList.takeWhile (· ≠ ';'))

/-- A line without its comment, with its blanks collapsed. -/
def plain (line : String) : String :=
  collapsed (uncommented line)

/-- A text that is not empty and has no blank in it. -/
def IsWord (s : String) : Prop :=
  s.toList ≠ [] ∧ ' ' ∉ s.toList

instance (s : String) : Decidable (IsWord s) :=
  inferInstanceAs (Decidable (_ ∧ _))

/-- Words split at a blank. -/
theorem words_append_blank (cs ds : List Char) :
    words (cs ++ ' ' :: ds) = words cs ++ words ds := by
  unfold words
  rw [List.splitOnP_append_cons cs ds (by decide), List.filter_append]

theorem words_append_blanks (cs : List Char) (blanks : Nat) :
    words (cs ++ List.replicate blanks ' ') = words cs := by
  induction blanks generalizing cs with
  | zero => rw [List.replicate_zero, List.append_nil]
  | succ blanks ih =>
      have hnil : words [] = [] := rfl
      have hblank : words (cs ++ [' ']) = words cs := by
        rw [words_append_blank, hnil, List.append_nil]
      rw [List.replicate_succ, ← List.singleton_append,
        ← List.append_assoc, ih, hblank]

theorem words_blanks_append (blanks : Nat) (cs : List Char) :
    words (List.replicate blanks ' ' ++ cs) = words cs := by
  induction blanks with
  | zero => rfl
  | succ blanks ih =>
      rw [List.replicate_succ, List.cons_append, ← ih]
      exact words_append_blank [] _

namespace IsWord

theorem words_eq {w : String} (h : IsWord w) :
    words w.toList = [w.toList] := by
  have hsplit : w.toList.splitOnP (· == ' ') = [w.toList] := by
    refine List.splitOnP_eq_singleton fun c hc => ?_
    rw [beq_eq_false_iff_ne]
    intro heq
    exact h.2 (heq ▸ hc)
  unfold words
  rw [hsplit]
  simp [h.1]

theorem collapsed_eq {w : String} (h : IsWord w) : collapsed w = w := by
  rw [collapsed, h.words_eq, List.intercalate_singleton,
    String.ofList_toList]

/-- A text behind a word that brings no blank is a part of the word. -/
theorem append {s t : String} (hs : IsWord s) (ht : ' ' ∉ t.toList) :
    IsWord (s ++ t) := by
  unfold IsWord
  rw [String.toList_append, List.mem_append, not_or]
  exact ⟨List.append_ne_nil_of_left_ne_nil hs.1 _, hs.2, ht⟩

/-- The digits of a number are a word. -/
theorem toString (n : Nat) : IsWord (toString n) := by
  unfold IsWord
  rw [Nat.toString_eq_repr, Nat.toList_repr]
  refine ⟨Nat.toDigits_ne_nil, fun hmem => ?_⟩
  have hdigit := Nat.isDigit_of_mem_toDigits (by decide) (by decide) hmem
  exact absurd hdigit (by decide)

theorem loopLabel (number : Nat) : IsWord (loopLabel number) :=
  .append (by decide) (toString number).2

theorem endLabel (number : Nat) : IsWord (endLabel number) :=
  .append (by decide) (toString number).2

end IsWord

/-- One text more in a row. -/
private theorem intercalate_append_singleton {sep : List Char}
    {rows : List (List Char)} (h : rows ≠ []) (row : List Char) :
    sep.intercalate (rows ++ [row])
      = sep.intercalate rows ++ sep ++ row := by
  induction rows with
  | nil => exact absurd rfl h
  | cons first rows ih =>
      cases rows with
      | nil =>
          rw [List.singleton_append, List.intercalate_cons_cons,
            List.intercalate_singleton, List.intercalate_singleton]
      | cons second rows =>
          have hrest := ih (List.cons_ne_nil _ _)
          rw [List.cons_append] at hrest
          rw [List.cons_append, List.cons_append,
            List.intercalate_cons_cons, List.intercalate_cons_cons, hrest]
          simp only [List.append_assoc]

theorem words_append_word (front : String) {w : String} (hw : IsWord w) :
    words (front ++ " " ++ w).toList = words front.toList ++ [w.toList] := by
  have hlist : (front ++ " " ++ w).toList
      = front.toList ++ ' ' :: w.toList := by
    simp
  rw [hlist, words_append_blank, hw.words_eq]

/-- A word behind a text stays behind it. -/
theorem collapsed_append_word {front w : String} (hw : IsWord w)
    (hfront : words front.toList ≠ []) :
    collapsed (front ++ " " ++ w) = collapsed front ++ " " ++ w := by
  apply String.toList_inj.mp
  unfold collapsed
  rw [words_append_word front hw, intercalate_append_singleton hfront]
  simp

/-- A line up to its first mark. -/
theorem toList_uncommented {line : String} {cs ds : List Char}
    (h : ';' ∉ cs) (hline : line.toList = cs ++ ';' :: ds) :
    (uncommented line).toList = cs := by
  have hfront : ∀ c ∈ cs, decide (c ≠ ';') = true := by
    intro c hc
    rw [decide_eq_true_iff]
    rintro rfl
    exact h hc
  rw [uncommented, hline, List.takeWhile_append_of_pos hfront]
  simp

/-- A line without a mark is as it is. -/
theorem uncommented_eq_self {line : String} (h : ';' ∉ line.toList) :
    uncommented line = line := by
  have hline : ∀ c ∈ line.toList, decide (c ≠ ';') = true := by
    intro c hc
    rw [decide_eq_true_iff]
    rintro rfl
    exact h hc
  rw [uncommented, List.takeWhile_eq_self_iff.mpr hline,
    String.ofList_toList]

/-- A line up to its comment is its code, and blanks. -/
theorem toList_uncommented_text {l : Line} (h : ';' ∉ l.code.toList) :
    ∃ blanks, (uncommented l.text).toList
      = l.code.toList ++ List.replicate blanks ' ' := by
  cases hremark : l.remark? with
  | none =>
      refine ⟨0, ?_⟩
      rw [l.text_of_remark?_eq_none hremark, uncommented_eq_self h,
        List.replicate_zero, List.append_nil]
  | some remark =>
      obtain ⟨blanks, htext⟩ := Line.toList_text_of_remark?_eq_some hremark
      exact ⟨blanks + 1,
        toList_uncommented (semicolon_not_mem_append_blanks h _) htext⟩

/-- A line without its comment is its code. -/
theorem plain_text {l : Line} (h : IsCode l.code) :
    plain l.text = collapsed l.code := by
  obtain ⟨blanks, hfront⟩ := toList_uncommented_text h.semicolon_not_mem
  rw [plain, collapsed, hfront, words_append_blanks, collapsed]

example : plain "    sub     byte [tape+ebx], 255            ; - x511"
    = "sub byte [tape+ebx], 255" := rfl

-- ============================================================== forms

/-- The lines around a program, that of the tape apart. -/
def aroundForms : List String :=
  ["extern putchar, getchar", "global main", "segment .data",
    "segment .text", "main:", "enter 0, 0", "pusha", "xor ebx, ebx",
    "popa", "xor eax, eax", "leave", "ret"]

/-- The lines of a loop that are not in its body. -/
def loopForms (number : Nat) : List String :=
  ["loop_" ++ toString number ++ ":", "mov al, [tape+ebx]", "cmp al, 0",
    "je end_loop_" ++ toString number, "jmp loop_" ++ toString number,
    "end_loop_" ++ toString number ++ ":"]

/-- A line of a run of an operation and a length. -/
inductive RunForm : Op → Nat → String → Prop where
  | inc : RunForm .moveRight 1 "inc ebx"
  | add (n : Nat) (h : n ≠ 1) :
    RunForm .moveRight n ("add ebx, " ++ toString n)
  | dec : RunForm .moveLeft 1 "dec ebx"
  | sub (n : Nat) (h : n ≠ 1) :
    RunForm .moveLeft n ("sub ebx, " ++ toString n)
  | incCell (n : Nat) (h : n % 256 = 1) :
    RunForm .increment n "inc byte [tape+ebx]"
  | addCell (n k : Nat) (hk : k = n % 256) (hle : k ≤ 255) (h : k ≠ 1) :
    RunForm .increment n ("add byte [tape+ebx], " ++ toString k)
  | decCell (n : Nat) (h : n % 256 = 1) :
    RunForm .decrement n "dec byte [tape+ebx]"
  | subCell (n k : Nat) (hk : k = n % 256) (hle : k ≤ 255) (h : k ≠ 1) :
    RunForm .decrement n ("sub byte [tape+ebx], " ++ toString k)
  | push (n : Nat) : RunForm .write n "push dword [tape+ebx]"
  | write (n : Nat) : RunForm .write n "call putchar"
  | pop (n : Nat) : RunForm .write n "pop ecx"
  | read (n : Nat) : RunForm .read n "call getchar"
  | store (n : Nat) : RunForm .read n "mov [tape+ebx], al"

/-- A line of a text of several programs. -/
inductive Form (o : Options) (ps : List Program) : String → Prop where
  | around {line : String} (h : line ∈ aroundForms) : Form o ps line
  | tape : Form o ps ("tape times " ++ toString o.tapeSize ++ " db 0")
  /-- The run is one of a program. -/
  | run {op : Op} {count : Nat} {line : String}
    (hrun : .run op count ∈ ps.flatMap Program.pieces)
    (h : RunForm op count line) : Form o ps line
  /-- The number is that of a loop. -/
  | loop {number : Nat} {line : String} (hpos : 0 < number)
    (hle : number ≤ (ps.map Program.loops).sum)
    (h : line ∈ loopForms number) : Form o ps line

-- ================================================== forms of the lines

namespace Instruction

/-- Code with one operand ends in it. -/
theorem code_single (mnemonic : String) (x : Operand) :
    code { mnemonic, operands := [x] }
      = indent ++ Text.padRight mnemonicWidth mnemonic ++ x.text := rfl

/-- Code with two operands ends in the second one, behind a blank. -/
theorem code_pair (mnemonic : String) (dst src : Operand) :
    code { mnemonic, operands := [dst, src] }
      = indent ++ Text.padRight mnemonicWidth mnemonic ++ dst.text ++ ","
        ++ " " ++ src.text := by
  have hcomma : ", " = "," ++ " " := rfl
  have htext : operandText { mnemonic, operands := [dst, src] }
      = dst.text ++ (", " ++ src.text) := by
    apply String.toList_inj.mp
    simp [operandText]
  show _ ++ _ ++ operandText _ = _
  rw [htext, hcomma]
  simp only [String.append_assoc]

/-- The code of an instruction with a number is what stands in front of
the number, and the number. -/
theorem collapsed_code_number (mnemonic : String) (dst : Operand)
    (front : String)
    (h : words (indent ++ Text.padRight mnemonicWidth mnemonic
        ++ dst.text ++ ",").toList ≠ []
      ∧ collapsed (indent ++ Text.padRight mnemonicWidth mnemonic
        ++ dst.text ++ ",") ++ " " = front) (n : Nat) :
    collapsed (code { mnemonic, operands := [dst, .immediate n] })
      = front ++ toString n := by
  rw [code_pair]
  show collapsed (_ ++ " " ++ toString n) = _
  rw [collapsed_append_word (.toString n) h.1, h.2]

/-- The code of a jump is its name and its label. -/
theorem collapsed_code_jump (mnemonic : String) {name : String}
    (hname : IsWord name) (front : String)
    (h : indent ++ Text.padRight mnemonicWidth mnemonic = front ++ " "
      ∧ words front.toList ≠ []) :
    collapsed (code { mnemonic, operands := [.label name] })
      = collapsed front ++ " " ++ name := by
  rw [code_single, h.1]
  exact collapsed_append_word hname h.2

end Instruction

/-- The instructions of a run have the forms of its operation. -/
theorem OfRun.runForm {op : Op} {count : Nat} {i : Instruction}
    (h : OfRun op count i) : RunForm op count (collapsed i.code) := by
  have hle : count % 256 ≤ 255 := by omega
  cases h with
  | moveRight =>
      by_cases hone : count = 1
      · have hcode : collapsed (addNumber head 1).code = "inc ebx" := rfl
        rw [hone, hcode]
        exact .inc
      · rw [addNumber, if_neg hone, Instruction.collapsed_code_number
          "add" head "add ebx, " (by decide)]
        exact .add count hone
  | moveLeft =>
      by_cases hone : count = 1
      · have hcode : collapsed (subNumber head 1).code = "dec ebx" := rfl
        rw [hone, hcode]
        exact .dec
      · rw [subNumber, if_neg hone, Instruction.collapsed_code_number
          "sub" head "sub ebx, " (by decide)]
        exact .sub count hone
  | increment =>
      by_cases hone : count % 256 = 1
      · have hcode : collapsed (addNumber (cell (some .byte)) 1).code
            = "inc byte [tape+ebx]" := rfl
        rw [hone, hcode]
        exact .incCell count hone
      · rw [addNumber, if_neg hone, Instruction.collapsed_code_number
          "add" (cell (some .byte)) "add byte [tape+ebx], " (by decide)]
        exact .addCell count _ rfl hle hone
  | decrement =>
      by_cases hone : count % 256 = 1
      · have hcode : collapsed (subNumber (cell (some .byte)) 1).code
            = "dec byte [tape+ebx]" := rfl
        rw [hone, hcode]
        exact .decCell count hone
      · rw [subNumber, if_neg hone, Instruction.collapsed_code_number
          "sub" (cell (some .byte)) "sub byte [tape+ebx], " (by decide)]
        exact .subCell count _ rfl hle hone
  | push => exact .push count
  | write => exact .write count
  | pop => exact .pop count
  | read => exact .read count
  | store => exact .store count

variable (o : Options)

/-- The lines of a loop have the forms of its number. -/
theorem mem_loopForms (number : Nat) : ∀ l ∈ loopFrame o number,
    collapsed l.code ∈ loopForms number := by
  have hlabel : ∀ name, IsWord name →
      collapsed (Line.label name).code = name ++ ":" := by
    intro name hname
    exact (hname.append (by decide)).collapsed_eq
  have htest : ∀ i ∈ loopTest, collapsed i.code
      ∈ ["mov al, [tape+ebx]", "cmp al, 0"] := by decide
  refine forall_mem_loopFrame ?_ (fun i hi => ?_) ?_ ?_ ?_
  · rw [hlabel _ (.loopLabel number)]
    simp [loopForms, loopLabel]
  · have hmem := htest i hi
    simp only [List.mem_cons, List.not_mem_nil, or_false] at hmem
    show collapsed i.code ∈ loopForms number
    rcases hmem with hmem | hmem
    · simp [loopForms, hmem]
    · simp [loopForms, hmem]
  · show collapsed (o.comment _ _).code ∈ _
    rw [Instruction.code_comment, Build.je, Instruction.collapsed_code_jump
      "je" (.endLabel number) "    je     " (by decide)]
    have hfront : collapsed "    je     " ++ " " ++ endLabel number
        = "je end_loop_" ++ toString number := by
      rw [endLabel, ← String.append_assoc]
      rfl
    simp [loopForms, hfront]
  · show collapsed (o.comment _ _).code ∈ _
    rw [Instruction.code_comment, Build.jmp, Instruction.collapsed_code_jump
      "jmp" (.loopLabel number) "    jmp    " (by decide)]
    have hfront : collapsed "    jmp    " ++ " " ++ loopLabel number
        = "jmp loop_" ++ toString number := by
      rw [loopLabel, ← String.append_assoc]
      rfl
    simp [loopForms, hfront]
  · rw [hlabel _ (.endLabel number)]
    simp [loopForms, endLabel]

/-- The directive of the tape is kept word by word. -/
theorem collapsed_tape (n : Nat) :
    collapsed (tapeLabel ++ " times " ++ toString n ++ " db 0")
      = "tape times " ++ toString n ++ " db 0" := by
  let size := "tape times" ++ " " ++ toString n
  have hline : tapeLabel ++ " times " ++ toString n ++ " db 0"
      = size ++ " " ++ "db" ++ " " ++ "0" := by
    apply String.toList_inj.mp
    simp [tapeLabel, size]
  have hsize : words size.toList ≠ [] := by
    rw [words_append_word _ (.toString n)]
    exact List.append_ne_nil_of_right_ne_nil _ (List.cons_ne_nil _ _)
  have hname : words (size ++ " " ++ "db").toList ≠ [] := by
    rw [words_append_word _ (by decide)]
    exact List.append_ne_nil_of_right_ne_nil _ (List.cons_ne_nil _ _)
  have htimes : collapsed "tape times" = "tape times" := rfl
  rw [hline, collapsed_append_word (by decide) hname,
    collapsed_append_word (by decide) hsize,
    collapsed_append_word (.toString n) (by decide), htimes]
  apply String.toList_inj.mp
  simp

/-- Every line of several programs has a form. -/
theorem form_of_mem_units (ps : List Program) :
    ∀ l ∈ units o 0 ps, Form o ps (collapsed l.code) := by
  refine forall_mem_units ?_ ?_ (fun op count hrun i hi => ?_)
    fun number hpos hle l hl => ?_
  · have hfixed : ∀ l ∈ [Line.directive "extern putchar, getchar",
        .directive "global main", .directive "segment .data",
        .directive "segment .text", .label "main"],
        collapsed l.code ∈ aroundForms := by decide
    have htape : Form o ps (collapsed (Line.code (.directive
        (tapeLabel ++ " times " ++ toString o.tapeSize ++ " db 0")))) := by
      show Form o ps (collapsed (tapeLabel ++ _ ++ _ ++ _))
      rw [collapsed_tape]
      exact .tape
    simp only [header, List.forall_mem_cons]
    exact ⟨.around (hfixed _ (by decide)), .around (hfixed _ (by decide)),
      .around (hfixed _ (by decide)), htape,
      .around (hfixed _ (by decide)), .around (hfixed _ (by decide)),
      List.forall_mem_nil _⟩
  · have haround : ∀ i ∈ prologue ++ epilogue,
        collapsed i.code ∈ aroundForms := by decide
    exact fun i hi => .around (haround i hi)
  · obtain ⟨j, hj, hmnemonic, hoperands⟩ := ofRun_of_mem_runLines hi
    show Form o ps (collapsed i.code)
    rw [Instruction.code_congr hmnemonic hoperands]
    exact .run hrun hj.runForm
  · rw [Nat.zero_add] at hle
    exact .loop hpos hle (mem_loopForms o number l hl)

-- ============================================================== breaks

/-- What a comment on a run says is on one line. -/
theorem newline_not_mem_runText (op : Op) (count : Nat) :
    '\n' ∉ (runText op count).toList := by
  have hsymbol : '\n' ∉ op.symbol.toString.toList := by
    cases op <;> decide
  have hcount : '\n' ∉ (toString count).toList :=
    (IsCode.toString count).not_mem (by decide)
  unfold runText
  split
  · exact hsymbol
  · simp only [String.toList_append, List.mem_append, not_or]
    exact ⟨⟨hsymbol, by decide⟩, hcount⟩

/-- An instruction that has no comment of its own has the one that is
put there. -/
theorem eq_of_comment_eq_some {text remark : String} {i : Instruction}
    (hnone : i.comment = none)
    (h : (o.comment text i).comment = some remark) : remark = text := by
  unfold Options.comment at h
  split at h
  · cases h
    rfl
  · rw [hnone] at h
    cases h

/-- A comment in the code of a run says what the run is. -/
theorem remark_of_mem_runLines {op : Op} {count : Nat} {remark : String}
    {i : Instruction} (h : i ∈ runLines o op count)
    (hremark : i.comment = some remark) : remark = runText op count := by
  have hnone : ∀ j ∈ runCode op count, j.comment = none :=
    fun _ => comment_of_mem_runCode
  unfold runLines at h
  cases hcode : runCode op count with
  | nil =>
      rw [hcode] at h
      cases h
  | cons first rest =>
      rw [hcode] at h hnone
      obtain ⟨hfirst, hrest⟩ := List.forall_mem_cons.mp hnone
      rcases List.mem_cons.mp h with rfl | hi
      · exact eq_of_comment_eq_some o hfirst hremark
      · rw [hrest i hi] at hremark
        cases hremark

/-- The comments of several programs are on one line each. -/
theorem newline_not_mem_remark (ps : List Program) :
    ∀ l ∈ units o 0 ps, ∀ remark, l.remark? = some remark →
      '\n' ∉ remark.toList := by
  have haround : ∀ i ∈ prologue ++ epilogue, i.comment = none := by decide
  have htest : ∀ i ∈ loopTest, i.comment = none := by decide
  refine forall_mem_units ?_ (fun i hi remark h => ?_)
    (fun op count _ i hi remark h => ?_)
    fun number _ _ => forall_mem_loopFrame ?_ (fun i hi remark h => ?_)
      (fun remark h => ?_) (fun remark h => ?_) ?_
  · simp [header, Line.remark?]
  · cases (haround i hi).symm.trans h
  · rw [remark_of_mem_runLines o hi h]
    exact newline_not_mem_runText op count
  · intro remark h
    cases h
  · cases (htest i hi).symm.trans h
  · rw [eq_of_comment_eq_some o rfl h]
    decide
  · rw [eq_of_comment_eq_some o rfl h]
    decide
  · intro remark h
    cases h

theorem isCode_units (loops : Nat) (ps : List Program) :
    ∀ l ∈ units o loops ps, IsCode l.code := by
  induction ps generalizing loops with
  | nil => exact fun l hl => nomatch hl
  | cons p ps ih =>
      rw [units, List.forall_mem_append]
      exact ⟨isCode_unit o loops p, ih _⟩

/-- No line of several programs breaks in two. -/
theorem newline_not_mem_text (ps : List Program) :
    ∀ l ∈ units o 0 ps, '\n' ∉ l.text.toList := by
  intro l hl
  have hcode : '\n' ∉ l.code.toList :=
    (isCode_units o 0 ps l hl).not_mem (by decide)
  cases hremark : l.remark? with
  | none =>
      rw [l.text_of_remark?_eq_none hremark]
      exact hcode
  | some remark =>
      obtain ⟨blanks, htext⟩ := Line.toList_text_of_remark?_eq_some hremark
      have hnone := newline_not_mem_remark o ps l hl remark hremark
      rw [htext]
      simp [hcode, hnone]

-- ========================================================= the listing

/-- Programs that are added to an empty listing are built and written
down without a fault, and each of their lines stays one line and has one
of the forms. -/
theorem Listing.written (ps : List Program) :
    ∃ l, ps.foldlM build { options := o } = .ok l
      ∧ l = ps.foldl add { options := o }
      ∧ l.render = .ok l.texts
      ∧ ∀ line ∈ l.texts, '\n' ∉ line.toList ∧ Form o ps (plain line) := by
  refine ⟨_, foldlM_build { options := o } ps, rfl,
    render_foldl_add o ps, fun line hline => ?_⟩
  obtain ⟨l, hl, rfl⟩ := List.mem_map.mp hline
  rw [lines_foldl_add] at hl
  have hmem : l ∈ units o 0 ps := hl
  rw [plain_text (isCode_units o 0 ps l hmem)]
  exact ⟨newline_not_mem_text o ps l hmem, form_of_mem_units o ps l hmem⟩

end TapeAsm.Asm
