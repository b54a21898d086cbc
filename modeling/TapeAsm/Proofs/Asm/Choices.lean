/-
What the options decide in an assembly text. The tape's size stands in
the directive of the tape, the fourth line, and nowhere else; and with
comments on, there are comments (`Listing.optionsKept`). So the texts of
a program with two choices of options are the same line by line, once
comments are taken off, the fourth line apart.

Comments are taken off a text by what a reader sees of it (`stripped`):
everything from the first semicolon on, and the blanks in front. That
leaves the code of a line (`stripped_text`), since code has no semicolon
in it and does not end in a blank (`Tight`).
-/
import Mathlib.Data.List.DropRight
import TapeAsm.Proofs.Asm.Forms

namespace TapeAsm.Asm

-- =========================================================== line ends

/-- A line without its comment and the blanks in front of that. -/
def stripped (line : String) : String :=
  String.ofList ((uncommented line).toList.rdropWhile (· = ' '))

/-- The text does not end in a blank. -/
def Tight (s : String) : Prop :=
  s.toList.getLast? ≠ some ' '

instance (s : String) : Decidable (Tight s) :=
  inferInstanceAs (Decidable (_ ≠ _))

namespace Tight

/-- What a text ends in is decided by its last part. -/
theorem append (s : String) {t : String} (hne : t.toList ≠ [])
    (ht : Tight t) : Tight (s ++ t) := by
  unfold Tight at *
  rwa [String.toList_append, List.getLast?_append_of_ne_nil _ hne]

/-- A text with a word at its end. -/
theorem append_word (s : String) {w : String} (hw : IsWord w) :
    Tight (s ++ w) :=
  append s hw.1 fun h => hw.2 (List.mem_of_getLast? h)

/-- Blanks behind a text are those that are dropped. -/
theorem rdropWhile_eq {s : String} (h : Tight s) (blanks : Nat) :
    (s.toList ++ List.replicate blanks ' ').rdropWhile (· = ' ')
      = s.toList := by
  induction blanks with
  | zero =>
      rw [List.replicate_zero, List.append_nil,
        List.rdropWhile_eq_self_iff]
      intro hne hlast
      rw [decide_eq_true_iff] at hlast
      exact h (hlast ▸ List.getLast?_eq_some_getLast hne)
  | succ blanks ih =>
      rw [List.replicate_succ', ← List.append_assoc,
        List.rdropWhile_concat_pos _ _ _ rfl, ih]

end Tight

/-- What is left of a line is its code. -/
theorem stripped_text {l : Line} (hmark : ';' ∉ l.code.toList)
    (htight : Tight l.code) : stripped l.text = l.code := by
  obtain ⟨blanks, hfront⟩ := toList_uncommented_text hmark
  rw [stripped, hfront, htight.rdropWhile_eq, String.ofList_toList]

example : stripped "    sub     byte [tape+ebx], 255            ; - x511"
    = "    sub     byte [tape+ebx], 255" := rfl

-- ============================================================== code

/-- The code of an instruction of a run ends in a number or a name. -/
theorem OfRun.tight {op : Op} {count : Nat} {i : Instruction}
    (h : OfRun op count i) : Tight i.code := by
  refine of_forms (P := fun i => Tight i.code) (by decide) ?_ h
  intro n
  have hpair : ∀ mnemonic dst,
      Tight (Instruction.code { mnemonic, operands := [dst, .immediate n] })
      := by
    intro mnemonic dst
    rw [Instruction.code_pair]
    exact .append_word _ (.toString n)
  simp [numberForms, hpair]

/-- No code ends in a blank. -/
theorem tight_unit (o : Options) (loops : Nat) (p : Program) :
    ∀ l ∈ unit o loops p, Tight l.code := by
  have hcolon : ∀ name, Tight (name ++ ":") :=
    fun name => .append name (by decide) (by decide)
  have hjump : ∀ text mnemonic name, IsWord name → Tight (Instruction.code
      (o.comment text { mnemonic, operands := [.label name] })) := by
    intro text mnemonic name hname
    rw [Instruction.code_comment, Instruction.code_single]
    exact .append_word _ hname
  have hheader : ∀ l ∈ header o, Tight l.code := by
    simp only [header, List.forall_mem_cons]
    exact ⟨by decide, by decide, by decide,
      .append _ (by decide) (by decide), by decide, by decide,
      List.forall_mem_nil _⟩
  have hbody : ∀ l ∈ body o loops p, Tight l.code := by
    refine forall_mem_body ?_ (fun _ => hcolon _) (by decide)
      (fun number => hjump _ _ _ (.endLabel number))
      (fun number => hjump _ _ _ (.loopLabel number))
      (fun _ => hcolon _) loops p
    intro op count i hi
    obtain ⟨j, hj, hmnemonic, hoperands⟩ := ofRun_of_mem_runLines hi
    show Tight i.code
    rw [Instruction.code_congr hmnemonic hoperands]
    exact hj.tight
  simp only [unit_eq, List.forall_mem_append]
  exact ⟨⟨⟨hheader, by decide⟩, hbody⟩, by decide⟩

-- ============================================================= choices

section Choices

variable (o o' : Options)

/-- Comments apart, the options have no part in the code of a run. -/
theorem map_code_runLines (op : Op) (count : Nat) :
    (runLines o op count).map Instruction.code
      = (runCode op count).map Instruction.code := by
  unfold runLines
  cases runCode op count with
  | nil => rfl
  | cons i is =>
      rw [Options.commentFirst, List.map_cons, Instruction.code_comment,
        List.map_cons]

/-- Nor in the frame of a loop. -/
theorem map_code_loopTop (number : Nat) :
    (loopTop o number).map Line.code
      = (loopTop o' number).map Line.code := by
  simp only [loopTop, List.map_cons, List.map_append, List.map_nil,
    Line.code, Instruction.code_comment]

theorem code_jumpBack (number : Nat) :
    (jumpBack o number).code = (jumpBack o' number).code := by
  rw [jumpBack, jumpBack, Instruction.code_comment,
    Instruction.code_comment]

/-- The code of a program is the same with all options. -/
theorem map_code_body (loops : Nat) (p : Program) :
    (body o loops p).map Line.code = (body o' loops p).map Line.code := by
  induction p generalizing loops with
  | done => rfl
  | run op count next ih =>
      have hrun : ∀ o : Options,
          ((runLines o op count).map Line.instruction).map Line.code
            = (runCode op count).map Instruction.code := by
        intro o
        rw [List.map_map, ← map_code_runLines o]
        rfl
      rw [body_run, body_run, List.map_append, List.map_append, ih]
      exact congrArg (· ++ _) ((hrun o).trans (hrun o').symm)
  | loop inner next ihInner ih =>
      have hloop : (loopCode o (loops + 1) inner).map Line.code
          = (loopCode o' (loops + 1) inner).map Line.code := by
        simp only [loopCode, loopRest, List.map_append, List.map_cons,
          List.map_nil, map_code_loopTop o o', ihInner, Line.code,
          code_jumpBack o o']
      rw [body_loop, body_loop, List.map_append, List.map_append, hloop, ih]

/-- The directive that sets the tape aside. -/
def tapeDirective : String :=
  tapeLabel ++ " times " ++ toString o.tapeSize ++ " db 0"

/-- With other options only the directive of the tape is another. -/
theorem map_code_unit (loops : Nat) (p : Program) :
    (unit o' loops p).map Line.code
      = ((unit o loops p).map Line.code).set 3 (tapeDirective o') := by
  simp only [unit_eq, List.map_append, map_code_body o' o]
  rfl

end Choices

section Texts

variable (o : Options) (p : Program)

theorem map_stripped_texts :
    (Listing.ofProgram o p).texts.map stripped
      = (unit o 0 p).map Line.code := by
  rw [Listing.texts_ofProgram, List.map_map]
  exact List.map_congr_left fun l hl =>
    stripped_text (isCode_unit o 0 p l hl).semicolon_not_mem
      (tight_unit o 0 p l hl)

theorem getElem?_three_texts :
    (Listing.ofProgram o p).texts[3]?
      = some ("tape times " ++ toString o.tapeSize ++ " db 0") := by
  rw [Listing.texts_ofProgram, unit_eq]
  rfl

/-- With comments off there are none. -/
theorem remark?_of_mem_unit (ho : o.comments = false) (loops : Nat) :
    ∀ l ∈ unit o loops p, l.remark? = none := by
  have hcomment : ∀ text i, o.comment text i = i := by
    intro text i
    rw [Options.comment, ho]
    rfl
  have hbody : ∀ l ∈ body o loops p, l.remark? = none := by
    refine forall_mem_body ?_ (fun _ => rfl) (by decide) ?_ ?_
      (fun _ => rfl) loops p
    · intro op count i hi
      have hrun : runLines o op count = runCode op count := by
        unfold runLines
        cases runCode op count with
        | nil => rfl
        | cons i is => rw [Options.commentFirst, hcomment]
      rw [hrun] at hi
      exact comment_of_mem_runCode hi
    · intro number
      rw [hcomment]
      rfl
    · intro number
      rw [jumpBack, hcomment]
      rfl
  simp only [unit_eq, List.forall_mem_append]
  exact ⟨⟨⟨by simp [header, Line.remark?], by decide⟩, hbody⟩, by decide⟩

end Texts

/-- The options decide in the texts of a program on what they are for,
and on nothing else. -/
structure OptionsKept (o o' : Options) (texts texts' : List String) :
    Prop where
  /-- The texts have as many lines. -/
  length : texts.length = texts'.length
  /-- The fourth line sets the tape aside. -/
  tape : texts[3]?
      = some ("tape times " ++ toString o.tapeSize ++ " db 0")
    ∧ texts'[3]?
      = some ("tape times " ++ toString o'.tapeSize ++ " db 0")
  /-- Comments apart, every other line is the same. -/
  others : ∀ line, line ≠ 3 →
    texts[line]?.map stripped = texts'[line]?.map stripped
  /-- With comments off there is no semicolon. -/
  silent : o.comments = false → ∀ text ∈ texts, ';' ∉ text.toList
  /-- Where there is no semicolon there is nothing to strip. -/
  unmarked : ∀ text ∈ texts, ';' ∉ text.toList → stripped text = text

/-- Whatever is chosen for the text of a program, only the size of the
tape and the comments in it change. -/
theorem Listing.optionsKept (o o' : Options) (p : Program) :
    OptionsKept o o' (ofProgram o p).texts (ofProgram o' p).texts := by
  have hcode := map_code_unit o o' 0 p
  rw [← map_stripped_texts, ← map_stripped_texts] at hcode
  refine {
    length := ?_
    tape := ⟨getElem?_three_texts o p, getElem?_three_texts o' p⟩
    others := fun line hline => ?_
    silent := fun ho text htext => ?_
    unmarked := fun text htext hmark => ?_ }
  · have hlength := congrArg List.length hcode
    rw [List.length_set, List.length_map, List.length_map] at hlength
    exact hlength.symm
  · rw [← List.getElem?_map, ← List.getElem?_map, hcode,
      List.getElem?_set_ne hline.symm]
  · rw [texts_ofProgram] at htext
    obtain ⟨l, hl, rfl⟩ := List.mem_map.mp htext
    rw [l.text_of_remark?_eq_none (remark?_of_mem_unit o p ho 0 l hl)]
    exact (isCode_unit o 0 p l hl).semicolon_not_mem
  · rw [texts_ofProgram] at htext
    obtain ⟨l, hl, rfl⟩ := List.mem_map.mp htext
    rw [stripped_text (isCode_unit o 0 p l hl).semicolon_not_mem
      (tight_unit o 0 p l hl)]
    cases hremark : l.remark? with
    | none => exact (l.text_of_remark?_eq_none hremark).symm
    | some remark =>
        obtain ⟨blanks, htext⟩ :=
          Line.toList_text_of_remark?_eq_some hremark
        rw [htext] at hmark
        exact absurd (by simp) hmark

/-- A loop with a short tape and no comments, and with a long tape and
comments: the directive of the tape differs, and the jump behind the
test of the loop in its comment only. -/
theorem Listing.optionsKept_silent :
    let bare : Options := { tapeSize := 8, comments := false }
    let p : Program := .loop (.run .decrement 511 .done) .done
    let texts := (ofProgram bare p).texts
    let texts' := (ofProgram {} p).texts
    bare.comments = false
      ∧ texts[3]? = some "tape times 8 db 0"
      ∧ texts'[3]? = some "tape times 100000 db 0"
      ∧ texts[12]? = some "    je      end_loop_1"
      ∧ texts'[12]? = some "    je      end_loop_1                  ; ["
      ∧ texts[12]?.map stripped = texts'[12]?.map stripped
      ∧ ∀ text ∈ texts, ';' ∉ text.toList := by
  intro bare p texts texts'
  have hkept := Listing.optionsKept bare {} p
  exact ⟨rfl, hkept.tape.1.trans (by decide),
    hkept.tape.2.trans (by decide), by decide, by decide,
    hkept.others 12 (by decide), hkept.silent rfl⟩

end TapeAsm.Asm
