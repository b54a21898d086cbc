/-
The comments of an assembly text as a record of the program. With
comments on, they name the pieces of the program in reading order, one
comment for each piece (`remarks_body`). A comment is found in
a line by the mark in front of it (`comment?_text`), and what it says
can be read back (`ofText?_text`); so the whole program can be read back
from the text, whatever its counts are (`Listing.commented`).
-/
import TapeAsm.Compile
import TapeAsm.Proofs.Asm.Characters
import TapeAsm.Proofs.Source.Reading

namespace TapeAsm

-- ====================================================== pieces in words

/-- A piece as a comment names it. -/
def Piece.text : Piece → String
  | run op count =>
    if count = 1 then op.symbol.toString
    else op.symbol.toString ++ " x" ++ toString count
  | opening => "["
  | closing => "]"

/-- The operation that a character stands for, if it does. -/
def Op.ofSymbol? (c : Char) : Option Op :=
  match TokenKind.ofChar c with
  | .op op => some op
  | _ => none

/-- The piece that a comment names. -/
def Piece.ofText? (text : String) : Option Piece :=
  match text.toList with
  | ['['] => some opening
  | [']'] => some closing
  | [c] => (Op.ofSymbol? c).map (.run · 1)
  | c :: ' ' :: 'x' :: digits =>
    (Op.ofSymbol? c).map (.run · (Nat.ofDigitChars 10 digits 0))
  | _ => none

/-- What a comment names can be read back. -/
theorem Piece.ofText?_text (piece : Piece) :
    ofText? piece.text = some piece := by
  cases piece with
  | run op count =>
      by_cases hcount : count = 1
      · rw [text, if_pos hcount, hcount]
        cases op <;> rfl
      · have hlist : (text (run op count)).toList
            = op.symbol :: ' ' :: 'x' :: Nat.toDigits 10 count := by
          simp [text, hcount]
        rw [ofText?, hlist]
        cases op <;> simp [Op.ofSymbol?, Op.symbol, TokenKind.ofChar]
  | opening => rfl
  | closing => rfl

namespace Asm

-- =================================================== comments in lines

/-- What stands behind the first mark of a comment, a semicolon with a
blank. -/
def behindMark : List Char → Option (List Char)
  | [] => none
  | c :: cs =>
    if c = ';' ∧ cs.head? = some ' ' then some cs.tail
    else behindMark cs

/-- The comment in a line. -/
def comment? (line : String) : Option String :=
  (behindMark line.toList).map String.ofList

/-- The comment of a line, as it was put there. -/
def Line.remark? : Line → Option String
  | directive _ => none
  | label _ => none
  | instruction i => i.comment

theorem behindMark_append {cs : List Char} (h : ';' ∉ cs)
    (ds : List Char) : behindMark (cs ++ ds) = behindMark ds := by
  induction cs with
  | nil => rfl
  | cons c cs ih =>
      rw [List.mem_cons, not_or] at h
      rw [List.cons_append, behindMark, if_neg fun hc => h.1 hc.1.symm,
        ih h.2]

theorem behindMark_eq_none {cs : List Char} (h : ';' ∉ cs) :
    behindMark cs = none := by
  rw [← List.append_nil cs, behindMark_append h, behindMark]

theorem IsCode.semicolon_not_mem {s : String} (h : IsCode s) :
    ';' ∉ s.toList :=
  h.not_mem (by decide)

/-- A line without a comment is the code in it. -/
theorem Line.text_of_remark?_eq_none {l : Line} (h : l.remark? = none) :
    l.text = l.code := by
  cases l with
  | directive text => rfl
  | label name => rfl
  | instruction i =>
      have hcomment : i.comment = none := h
      rw [text, code, Instruction.text, hcomment]

/-- A comment stands behind the code, at least one blank and a mark. -/
theorem Line.toList_text_of_remark?_eq_some {l : Line} {remark : String}
    (h : l.remark? = some remark) :
    ∃ blanks, l.text.toList
      = (l.code.toList ++ List.replicate (blanks + 1) ' ')
        ++ ';' :: ' ' :: remark.toList := by
  cases l with
  | directive text => cases h
  | label name => cases h
  | instruction i =>
      have hcomment : i.comment = some remark := h
      have hmark : " ; ".toList = [' ', ';', ' '] := rfl
      refine ⟨Instruction.codeWidth - i.code.length, ?_⟩
      rw [text, code, Instruction.text, hcomment]
      simp only [String.toList_append, Text.toList_padRight, hmark,
        List.replicate_succ', List.append_assoc, List.cons_append,
        List.nil_append]

/-- Blanks behind code bring no mark with them. -/
theorem semicolon_not_mem_append_blanks {cs : List Char} (h : ';' ∉ cs)
    (blanks : Nat) : ';' ∉ cs ++ List.replicate blanks ' ' := by
  simp [h]

/-- The comment of a line is found in its text. -/
theorem comment?_text {l : Line} (h : ';' ∉ l.code.toList) :
    comment? l.text = l.remark? := by
  cases hremark : l.remark? with
  | none =>
      rw [l.text_of_remark?_eq_none hremark, comment?,
        behindMark_eq_none h]
      rfl
  | some remark =>
      obtain ⟨blanks, htext⟩ := Line.toList_text_of_remark?_eq_some hremark
      have hblanks := semicolon_not_mem_append_blanks h (blanks + 1)
      rw [comment?, htext, behindMark_append hblanks, behindMark,
        if_pos ⟨rfl, rfl⟩]
      simp

-- =================================================== comments of texts

/-- The comments of some lines, in order. -/
def remarks (ls : List Line) : List String :=
  ls.filterMap Line.remark?

/-- The comments of two stretches of lines are those of the first and then
those of the second. -/
@[simp] theorem remarks_append (ls ls' : List Line) :
    remarks (ls ++ ls') = remarks ls ++ remarks ls' :=
  List.filterMap_append

@[simp] theorem remarks_label (name : String) (ls : List Line) :
    remarks (.label name :: ls) = remarks ls := rfl

/-- The builders put no comments. -/
theorem comment_of_mem_runCode {op : Op} {count : Nat} {i : Instruction}
    (h : i ∈ runCode op count) : i.comment = none := by
  refine OfRun.of_forms (P := fun i => i.comment = none) (by decide) ?_
    (ofRun_of_mem_runCode h)
  simp [numberForms]

section Commented

variable {o : Options} (ho : o.comments = true)
include ho

theorem remarks_comment (text : String) (i : Instruction)
    (ls : List Line) :
    remarks (.instruction (o.comment text i) :: ls)
      = text :: remarks ls := by
  rw [Options.comment, if_pos ho]
  rfl

/-- A run has one comment, however many instructions it takes. -/
theorem remarks_run (op : Op) (count : Nat) :
    remarks ((runLines o op count).map .instruction)
      = [runText op count] := by
  have hne := runLines_ne_nil o op count
  have hnone : ∀ i ∈ runCode op count, i.comment = none :=
    fun _ => comment_of_mem_runCode
  unfold runLines at *
  cases hcode : runCode op count with
  | nil =>
      rw [hcode] at hne
      exact absurd rfl hne
  | cons i is =>
      rw [hcode] at hnone
      rw [Options.commentFirst, List.map_cons, remarks_comment ho, remarks,
        List.filterMap_eq_nil_iff.mpr]
      intro l hl
      obtain ⟨j, hj, rfl⟩ := List.mem_map.mp hl
      exact hnone j (List.mem_cons_of_mem i hj)

/-- The comments of a program name its pieces in reading order. -/
theorem remarks_body (loops : Nat) (p : Program) :
    remarks (body o loops p) = p.pieces.map Piece.text := by
  induction p generalizing loops with
  | done => rfl
  | run op count next ih =>
      rw [body_run, remarks_append, ih, Program.pieces, List.map_cons]
      exact congrArg (· ++ _) (remarks_run ho op count)
  | loop inner next ihInner ih =>
      have htest : remarks (loopTest.map .instruction) = [] := by decide
      rw [body_loop, loopCode, loopTop, loopRest, jumpBack]
      simp only [remarks_append, remarks_label, remarks_comment ho, htest,
        ihInner, ih]
      simp [Program.pieces, Piece.text, remarks]

/-- What is around a program has no comments. -/
theorem remarks_unit (loops : Nat) (p : Program) :
    remarks (unit o loops p) = p.pieces.map Piece.text := by
  have hheader : remarks (header o) = [] := rfl
  have hprologue : remarks (prologue.map .instruction) = [] := by decide
  have hepilogue : remarks (epilogue.map .instruction) = [] := by decide
  rw [unit_eq, remarks_append, remarks_append, remarks_append, hheader,
    hprologue, hepilogue, remarks_body ho, List.nil_append,
    List.nil_append, List.append_nil]

end Commented

-- ============================================================ reading

/-- The pieces that are named in the comments of a text. -/
def annotated? (lines : List String) : Option (List Piece) :=
  (lines.filterMap comment?).mapM Piece.ofText?

/-- The program that is named in the comments of a text. -/
def recorded? (lines : List String) : Option Program :=
  (annotated? lines).bind Program.ofPieces?

/-- The symbols of the pieces that are named in the comments of a
text. -/
def expanded? (lines : List String) : Option (List Char) :=
  (annotated? lines).map (·.flatMap Piece.symbols)

theorem mapM_ofText?_text (pieces : List Piece) :
    (pieces.map Piece.text).mapM Piece.ofText? = some pieces := by
  induction pieces with
  | nil => rfl
  | cons piece pieces ih =>
      rw [List.map_cons, List.mapM_cons, Piece.ofText?_text, ih]
      rfl

/-- A source that is compiled as it is has the text of the program that
its tokens spell. -/
theorem compile_eq_ok {source : String} {o : Options}
    {lines : List String} (h : compile source o [] = .ok lines) :
    ∃ p, Program.ofTokens (Token.scan source) = .ok p
      ∧ lines = (Listing.ofProgram o p).texts := by
  unfold compile at h
  cases hp : Program.ofTokens (Token.scan source) with
  | error cause =>
      rw [hp] at h
      cases h
  | ok p =>
      rw [hp] at h
      cases h
      exact ⟨p, rfl, rfl⟩

section Texts

variable {o : Options} (ho : o.comments = true) (p : Program)
include ho

theorem filterMap_comment?_texts :
    (Listing.ofProgram o p).texts.filterMap comment?
      = p.pieces.map Piece.text := by
  rw [Listing.texts_ofProgram, List.filterMap_map, ← remarks_unit ho 0 p, remarks]
  exact List.filterMap_congr fun l hl =>
    comment?_text (isCode_unit o 0 p l hl).semicolon_not_mem

theorem annotated?_texts :
    annotated? (Listing.ofProgram o p).texts = some p.pieces := by
  rw [annotated?, filterMap_comment?_texts ho, mapM_ofText?_text]

/-- The pieces that are named make up the program. -/
theorem recorded?_texts :
    recorded? (Listing.ofProgram o p).texts = some p := by
  rw [recorded?, annotated?_texts ho, Option.bind_some,
    Program.ofPieces?_pieces]

theorem expanded?_texts :
    expanded? (Listing.ofProgram o p).texts = some p.symbols := by
  rw [expanded?, annotated?_texts ho]
  rfl

end Texts

/-- A line in which no comment is found has no mark in it. -/
theorem semicolon_not_mem_text {l : Line} (h : IsCode l.code)
    (hnone : comment? l.text = none) : ';' ∉ l.text.toList := by
  rw [comment?_text h.semicolon_not_mem] at hnone
  rw [l.text_of_remark?_eq_none hnone]
  exact h.semicolon_not_mem

/-- What the comments of texts with the options `o` say. -/
structure Commented (o : Options) : Prop where
  /-- They name the pieces of the program in reading order. -/
  pieces : ∀ p, (Listing.ofProgram o p).texts.filterMap comment?
    = p.pieces.map Piece.text
  /-- There is no mark of a comment in any other line. -/
  silent : ∀ p, ∀ line ∈ (Listing.ofProgram o p).texts,
    comment? line = none → ';' ∉ line.toList
  /-- The program can be read back from them. -/
  recorded : ∀ p, recorded? (Listing.ofProgram o p).texts = some p
  /-- Different programs have different texts, whatever the tapes. -/
  injective : ∀ o' p q, o'.comments = true →
    (Listing.ofProgram o p).texts = (Listing.ofProgram o' q).texts → p = q
  /-- Of a source that is compiled as it is, they spell all symbols. -/
  expanded : ∀ source lines, compile source o [] = .ok lines →
    expanded? lines = some (source.toList.filter isSymbol)

/-- With comments on, a text is a faithful record of the program. -/
theorem Listing.commented {o : Options} (ho : o.comments = true) :
    Commented o where
  pieces := filterMap_comment?_texts ho
  silent := by
    intro p line hline hnone
    rw [texts_ofProgram] at hline
    obtain ⟨l, hl, rfl⟩ := List.mem_map.mp hline
    exact semicolon_not_mem_text (isCode_unit o 0 p l hl) hnone
  recorded := recorded?_texts ho
  injective := by
    intro o' p q ho' htexts
    have hp := recorded?_texts ho p
    rw [htexts, recorded?_texts ho' q] at hp
    exact (Option.some.inj hp).symm
  expanded := by
    intro source lines h
    obtain ⟨p, hp, rfl⟩ := compile_eq_ok h
    rw [expanded?_texts ho, Program.symbols_of_scan hp]

/-- The text of a program with a long run and an empty one. -/
theorem Listing.commented_counts :
    ({ tapeSize := 8 } : Options).comments = true
    ∧ (ofProgram { tapeSize := 8 } (.run .increment 300
        (.loop (.run .write 0 .done) .done))).texts.filterMap comment?
      = ["+ x300", "[", ". x0", "]"] := by
  have ho : ({ tapeSize := 8 } : Options).comments = true := rfl
  exact ⟨ho, (Listing.commented ho).pieces _⟩

end Asm

end TapeAsm
