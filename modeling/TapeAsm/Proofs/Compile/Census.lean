/-
How many lines a source compiles to, and how many of them call, jump,
push and pop. The options have no part in it, and of the source only the
runs, the symbols in them and the loops have: lines are counted over the
runs and the frames of loops of the program (`countP_body`), and each
count is a `Share` of the source (`tallied_of_compile`).

What a line does is told from the words that it opens with, as a reader
sees them, the comment left out (`opensWith`). For the lines of a program
this is the instruction in them (`opensWith_text_of_mem_unit`), so the
counting is done on instructions.
-/
import TapeAsm.Proofs.Asm.Columns
import TapeAsm.Proofs.Compile.Diagnostics
import TapeAsm.Proofs.Source.Census

namespace TapeAsm.Asm

-- ============================================================= counting

section Counting

variable {o : Options} {q : Line → Bool} {s : Share}

/-- What is counted over the runs and the frames of loops is counted over
a program. -/
theorem countP_body
    (hrun : ∀ op count, ((runLines o op count).map .instruction).countP q
      = s.ofPiece (.run op count))
    (hloop : ∀ number, (loopFrame o number).countP q = s.loop)
    (loops : Nat) (p : Program) :
    (body o loops p).countP q = (p.pieces.map s.ofPiece).sum := by
  induction p generalizing loops with
  | done => rfl
  | run op count next ih =>
      rw [body_run, List.countP_append, ih, Program.pieces, List.map_cons,
        List.sum_cons]
      exact congrArg (· + _) (hrun op count)
  | loop inner next ihInner ih =>
      have hframe := hloop (loops + 1)
      rw [loopFrame, List.countP_append, List.countP_cons] at hframe
      rw [body_loop, loopCode, loopRest]
      simp only [List.countP_append, List.countP_cons, List.countP_nil,
        ihInner, ih, Program.pieces, List.map_cons, List.map_append,
        List.sum_cons, List.sum_append, Share.ofPiece] at hframe ⊢
      omega

variable (hcomment : ∀ text i,
  q (.instruction (o.comment text i)) = q (.instruction i))
include hcomment

/-- Comments do not count. -/
theorem countP_runLines (op : Op) (count : Nat) :
    ((runLines o op count).map .instruction).countP q
      = (runCode op count).countP fun i => q (.instruction i) := by
  rw [List.countP_map]
  unfold runLines
  cases runCode op count with
  | nil => rfl
  | cons i is =>
      rw [Options.commentFirst, List.countP_cons, List.countP_cons]
      simp only [Function.comp_apply, hcomment]
      rfl

end Counting

-- ============================================================ landmarks

/-- The lines that call, jump, push and pop. -/
inductive Landmark where
  | write
  | read
  | skip
  | back
  | push
  | pop
deriving DecidableEq

namespace Landmark

/-- The instruction in such a line, -/
def mnemonic : Landmark → String
  | write => "call"
  | read => "call"
  | skip => "je"
  | back => "jmp"
  | push => "push"
  | pop => "pop"

/-- and what its operands begin with. -/
def front : Landmark → List String
  | write => ["putchar"]
  | read => ["getchar"]
  | skip => []
  | back => []
  | push => ["dword"]
  | pop => ["ecx"]

/-- How many there are of them. -/
def share (k : Landmark) : Share where
  run op := if op = .write ∧ (k = push ∨ k = pop) then 1 else 0
  symbol op :=
    if op = .write ∧ k = write ∨ op = .read ∧ k = read then 1 else 0
  loop := if k = skip ∨ k = back then 1 else 0

/-- Whether a line is one of them. -/
def matches? (k : Landmark) : Line → Bool
  | .directive _ => false
  | .label _ => false
  | .instruction i =>
    i.mnemonic = k.mnemonic
      && (k.front.map String.toList).isPrefixOf (words i.operandText.toList)

/-- How many of the instructions of a run are such a line. -/
theorem countP_runCode (k : Landmark) (op : Op) (count : Nat) :
    ((runCode op count).countP fun i => k.matches? (.instruction i))
      = k.share.ofPiece (.run op count) := by
  have hadd : ∀ dst n, k.matches? (.instruction (addNumber dst n)) = false := by
    intro dst n
    unfold addNumber
    split <;> cases k <;> rfl
  have hsub : ∀ dst n, k.matches? (.instruction (subNumber dst n)) = false := by
    intro dst n
    unfold subNumber
    split <;> cases k <;> rfl
  have hpush : k.matches? (.instruction (Build.push (cell (some .dword))))
      = decide (k = push) := by
    cases k <;> decide
  have hwrite : k.matches? (.instruction (Build.call writeRoutine))
      = decide (k = write) := by
    cases k <;> decide
  have hpop : k.matches? (.instruction (Build.pop (.register ⟨.c, .dword⟩)))
      = decide (k = pop) := by
    cases k <;> decide
  have hread : k.matches? (.instruction (Build.call readRoutine))
      = decide (k = read) := by
    cases k <;> decide
  have hstore : k.matches? (.instruction
      { mnemonic := "mov", operands := [cell none, scratch] }) = false := by
    cases k <;> decide
  cases op with
  | moveRight =>
      simp [runCode_moveRight, hadd, Share.ofPiece, share]
  | moveLeft =>
      simp [runCode_moveLeft, hsub, Share.ofPiece, share]
  | increment =>
      simp [runCode_increment, hadd, Share.ofPiece, share]
  | decrement =>
      simp [runCode_decrement, hsub, Share.ofPiece, share]
  | write =>
      rw [runCode_write, List.countP_cons, List.countP_append,
        List.countP_replicate, List.countP_singleton, hpush, hwrite, hpop]
      cases k <;> simp [Share.ofPiece, share]
  | read =>
      rw [runCode_read, List.countP_append, List.countP_replicate,
        List.countP_singleton, hread, hstore]
      cases k <;> simp [Share.ofPiece, share]

variable (o : Options)

/-- A comment makes no such line and takes none away. -/
theorem matches?_comment (k : Landmark) (text : String) (i : Instruction) :
    k.matches? (.instruction (o.comment text i))
      = k.matches? (.instruction i) := by
  simp only [matches?, comment_mnemonic, comment_operands,
    Instruction.operandText]

/-- A loop has one jump to its end and one to its start. -/
theorem countP_loopFrame (k : Landmark) (number : Nat) :
    (loopFrame o number).countP k.matches? = k.share.loop := by
  have htest : (loopTest.map Line.instruction).countP k.matches? = 0 := by
    cases k <;> decide
  have hskip : k.matches? (.instruction (Build.je (endLabel number)))
      = decide (k = skip) := by
    cases k <;> rfl
  have hback : k.matches? (.instruction (Build.jmp (loopLabel number)))
      = decide (k = back) := by
    cases k <;> rfl
  simp only [loopFrame, loopTop, jumpBack, List.countP_append,
    List.countP_cons, List.countP_nil, htest, matches?_comment, hskip,
    hback]
  cases k <;> rfl

/-- Around a program there are none. -/
theorem countP_unit (k : Landmark) (loops : Nat) (p : Program) :
    (unit o loops p).countP k.matches?
      = (p.pieces.map k.share.ofPiece).sum := by
  have hheader : (header o).countP k.matches? = 0 := rfl
  have hprologue : (prologue.map Line.instruction).countP k.matches? = 0 := by
    cases k <;> decide
  have hepilogue : (epilogue.map Line.instruction).countP k.matches? = 0 := by
    cases k <;> decide
  have hrun : ∀ op count,
      ((runLines o op count).map .instruction).countP k.matches?
        = k.share.ofPiece (.run op count) := by
    intro op count
    rw [countP_runLines (k.matches?_comment o), countP_runCode]
  simp only [unit_eq, List.countP_append, hheader, hprologue, hepilogue,
    countP_body hrun (k.countP_loopFrame o)]
  omega

end Landmark

-- ============================================================== lengths

/-- How many lines there are. -/
def lineShare : Share where
  run op := if op = .write then 2 else 1
  symbol op := if op = .write ∨ op = .read then 1 else 0
  loop := 6

/-- The lines of a program, and thirteen around them. -/
theorem length_unit (o : Options) (loops : Nat) (p : Program) :
    (unit o loops p).length
      = 13 + (p.pieces.map lineShare.ofPiece).sum := by
  have hrun : ∀ op count,
      ((runLines o op count).map Line.instruction).countP (fun _ => true)
        = lineShare.ofPiece (.run op count) := by
    intro op count
    rw [countP_runLines fun _ _ => rfl, List.countP_true]
    cases op with
    | moveRight => simp [runCode_moveRight, lineShare, Share.ofPiece]
    | moveLeft => simp [runCode_moveLeft, lineShare, Share.ofPiece]
    | increment => simp [runCode_increment, lineShare, Share.ofPiece]
    | decrement => simp [runCode_decrement, lineShare, Share.ofPiece]
    | write =>
        rw [runCode_write, List.length_cons, List.length_append,
          List.length_replicate, List.length_singleton]
        show count + 1 + 1 = 2 + 1 * count
        omega
    | read =>
        rw [runCode_read, List.length_append, List.length_replicate,
          List.length_singleton]
        show count + 1 = 1 + 1 * count
        omega
  have hbody := countP_body hrun (fun number => rfl) loops p
  rw [List.countP_true] at hbody
  simp only [unit_eq, List.length_append, hbody]
  have hheader : (header o).length = 6 := rfl
  have hprologue : (prologue.map Line.instruction).length = 3 := rfl
  have hepilogue : (epilogue.map Line.instruction).length = 4 := rfl
  omega

-- ================================================================ texts

/-- Whether the code in a line opens with some words. -/
def opensWith (front : List String) (line : String) : Bool :=
  (front.map String.toList).isPrefixOf (words (uncommented line).toList)

example : opensWith ["push", "dword"]
    "    push    dword [tape+ebx]           ; . x2" = true := rfl

/-- A mnemonic is a word that does not fill its column. -/
def IsMnemonic (s : String) : Prop :=
  IsWord s ∧ s.length < Instruction.mnemonicWidth

instance (s : String) : Decidable (IsMnemonic s) :=
  inferInstanceAs (Decidable (_ ∧ _))

/-- A comment is not looked at. -/
theorem opensWith_text {l : Line} (h : ';' ∉ l.code.toList)
    (front : List String) :
    opensWith front l.text
      = (front.map String.toList).isPrefixOf (words l.code.toList) := by
  obtain ⟨blanks, hcode⟩ := toList_uncommented_text h
  rw [opensWith, hcode, words_append_blanks]

namespace Landmark

variable (k : Landmark)

/-- Code that opens with another word is no landmark. -/
theorem isPrefixOf_eq_false {code : List (List Char)}
    (h : code.head? ≠ some k.mnemonic.toList) :
    ((k.mnemonic :: k.front).map String.toList).isPrefixOf code = false := by
  cases code with
  | nil => rfl
  | cons w ws =>
      have hne : (k.mnemonic.toList == w) = false := by
        rw [beq_eq_false_iff_ne]
        rintro rfl
        exact h rfl
      rw [List.map_cons, List.isPrefixOf_cons_cons, hne, Bool.false_and]

/-- A line is a landmark exactly if its code opens with the words of
one. -/
def Opens (l : Line) : Prop :=
  ((k.mnemonic :: k.front).map String.toList).isPrefixOf
    (words l.code.toList) = k.matches? l

/-- A label ends in a colon, which no mnemonic does. -/
theorem opens_label {name : String} (h : IsWord name) :
    k.Opens (.label name) := by
  have hcolon : ':' ∉ k.mnemonic.toList := by
    cases k <;> decide
  refine k.isPrefixOf_eq_false ?_
  show (words (name ++ ":").toList).head? ≠ _
  rw [(h.append (by decide)).words_eq, List.head?_cons]
  intro heq
  rw [← Option.some.inj heq] at hcolon
  simp at hcolon

/-- The code of an instruction opens with its mnemonic. -/
theorem opens_instruction {i : Instruction} (h : IsMnemonic i.mnemonic) :
    k.Opens (.instruction i) := by
  have hbeq : (k.mnemonic.toList == i.mnemonic.toList)
      = decide (i.mnemonic = k.mnemonic) := by
    rw [Bool.eq_iff_iff, beq_iff_eq, decide_eq_true_iff, String.toList_inj,
      eq_comm]
  show List.isPrefixOf _ (words i.code.toList) = _
  rw [Instruction.words_code h.1 h.2, List.map_cons,
    List.isPrefixOf_cons_cons, hbeq, matches?]

variable (o : Options)

/-- No directive opens with a mnemonic. -/
theorem opens_header : ∀ l ∈ header o, k.Opens l := by
  have hfixed : ∀ text ∈ ["extern putchar, getchar", "global main",
      "segment .data", "segment .text"],
      k.Opens (.directive text) := by
    intro text htext
    refine k.isPrefixOf_eq_false ?_
    revert text
    cases k <;> decide
  have htape : k.Opens (.directive (tapeDirective o)) := by
    have hlist : (tapeDirective o).toList
        = tapeLabel.toList ++ ' ' :: ("times " ++ toString o.tapeSize
          ++ " db 0").toList := by
      simp [tapeDirective]
    refine k.isPrefixOf_eq_false ?_
    show (words (tapeDirective o).toList).head? ≠ _
    rw [hlist, words_append_blank]
    cases k <;> exact nofun
  simp only [header, List.forall_mem_cons]
  exact ⟨hfixed _ (by decide), hfixed _ (by decide), hfixed _ (by decide),
    htape, hfixed _ (by decide), k.opens_label (by decide),
    List.forall_mem_nil _⟩

theorem opens_body (loops : Nat) (p : Program) :
    ∀ l ∈ body o loops p, k.Opens l := by
  have hrun : ∀ mnemonic ∈ runMnemonics, IsMnemonic mnemonic := by
    decide
  have htest : ∀ i ∈ loopTest, IsMnemonic i.mnemonic := by
    decide
  have hjump : ∀ text mnemonic name, IsMnemonic mnemonic →
      k.Opens (.instruction
        (o.comment text { mnemonic, operands := [.label name] })) := by
    intro text mnemonic name hmnemonic
    refine k.opens_instruction ?_
    rw [comment_mnemonic]
    exact hmnemonic
  refine forall_mem_body (fun op count i hi => ?_)
    (fun number => k.opens_label (.loopLabel number))
    (fun i hi => k.opens_instruction (htest i hi))
    (fun number => hjump _ "je" _ (by decide))
    (fun number => hjump _ "jmp" _ (by decide))
    (fun number => k.opens_label (.endLabel number)) loops p
  obtain ⟨j, hj, hmnemonic, -⟩ := ofRun_of_mem_runLines hi
  exact k.opens_instruction (hmnemonic ▸ hrun _ hj.mnemonic_mem)

/-- In a text, the words that a line opens with tell whether it is a
landmark. -/
theorem opensWith_text_of_mem_unit (loops : Nat) (p : Program) :
    ∀ l ∈ unit o loops p,
      opensWith (k.mnemonic :: k.front) l.text = k.matches? l := by
  have haround : ∀ i ∈ prologue ++ epilogue, IsMnemonic i.mnemonic := by
    decide
  have hlines : ∀ l ∈ unit o loops p, k.Opens l := by
    simp only [List.forall_mem_append] at haround
    simp only [unit_eq, List.forall_mem_append, List.forall_mem_map]
    exact ⟨⟨⟨k.opens_header o,
      fun i hi => k.opens_instruction (haround.1 i hi)⟩,
      k.opens_body o loops p⟩,
      fun i hi => k.opens_instruction (haround.2 i hi)⟩
  intro l hl
  rw [opensWith_text (isCode_unit o loops p l hl).semicolon_not_mem]
  exact hlines l hl

/-- In a text there are as many landmarks as in its lines. -/
theorem countP_texts (p : Program) :
    (Listing.ofProgram o p).texts.countP
        (opensWith (k.mnemonic :: k.front))
      = (p.pieces.map k.share.ofPiece).sum := by
  rw [Listing.texts_ofProgram, List.countP_map, ← k.countP_unit o 0 p]
  exact List.countP_congr fun l hl => by
    rw [Function.comp_apply, k.opensWith_text_of_mem_unit o 0 p l hl]

/-- How many landmarks a source makes. -/
def ofSource (source : List Char) : Landmark → Nat
  | write => source.count '.'
  | read => source.count ','
  | skip => source.count '['
  | back => source.count '['
  | push => runCount '.' source
  | pop => runCount '.' source

/-- A text has that many lines that open like one. -/
theorem countP_of_compile {source : String} {lines : List String}
    (h : compile source o [] = .ok lines) :
    lines.countP (opensWith (k.mnemonic :: k.front))
      = k.ofSource source.toList := by
  obtain ⟨p, hp, rfl⟩ := compile_eq_ok h
  rw [countP_texts, Share.sum_of_scan _ hp]
  cases k <;> simp [Share.ofSource, share, ofSource, Op.all, Op.symbol]

end Landmark

/-- The lines of a text, as the source says. -/
theorem length_of_compile {source : String} {o : Options}
    {lines : List String} (h : compile source o [] = .ok lines) :
    lines.length = 13 + lineShare.ofSource source := by
  obtain ⟨p, hp, rfl⟩ := compile_eq_ok h
  rw [← Share.sum_of_scan _ hp, ← length_unit o 0 p,
    Listing.texts_ofProgram, List.length_map]

-- =============================================================== census

/-- The lines of a text as its source accounts for them. -/
structure Tallied (source : String) (lines : List String) : Prop where
  length : lines.length = 13
    + (runCount '>' source.toList + runCount '<' source.toList
      + runCount '+' source.toList + runCount '-' source.toList)
    + (source.toList.count '.' + 2 * runCount '.' source.toList)
    + (source.toList.count ',' + runCount ',' source.toList)
    + 6 * source.toList.count '['
  writes : lines.countP (opensWith ["call", "putchar"])
    = source.toList.count '.'
  reads : lines.countP (opensWith ["call", "getchar"])
    = source.toList.count ','
  skips : lines.countP (opensWith ["je"]) = source.toList.count '['
  backs : lines.countP (opensWith ["jmp"]) = source.toList.count '['
  pushes : lines.countP (opensWith ["push", "dword"])
    = runCount '.' source.toList
  pops : lines.countP (opensWith ["pop", "ecx"])
    = runCount '.' source.toList

/-- Whatever the options are, the source says how many lines a text has,
and how many of them call, jump, push and pop. -/
theorem tallied_of_compile {source : String} {o : Options}
    {lines : List String} (h : compile source o [] = .ok lines) :
    Tallied source lines where
  length := by
    rw [length_of_compile h]
    simp only [Share.ofSource, lineShare, Op.all, Op.symbol, List.map_cons,
      List.map_nil, List.sum_cons, List.sum_nil, reduceCtorEq, if_true,
      if_false, or_true, or_false]
    omega
  writes := Landmark.write.countP_of_compile o h
  reads := Landmark.read.countP_of_compile o h
  skips := Landmark.skip.countP_of_compile o h
  backs := Landmark.back.countP_of_compile o h
  pushes := Landmark.push.countP_of_compile o h
  pops := Landmark.pop.countP_of_compile o h

/-- Blanks do not interrupt a run, a letter does: three dots in two runs,
three signs in three. -/
theorem tallied_of_compile_comment :
    ∃ lines, compile "+ +x-.\n.x.[>,<]" {} [] = .ok lines
      ∧ Tallied "+ +x-.\n.x.[>,<]" lines
      ∧ lines.length = 32 := by
  obtain ⟨lines, hlines⟩ :=
    (exists_compile_eq_ok_iff "+ +x-.\n.x.[>,<]" {} []).mpr
      ((exists_ofTokens_scan_iff _).mpr (by decide))
  have htallied := tallied_of_compile hlines
  exact ⟨lines, hlines, htallied, htallied.length.trans (by decide)⟩

end TapeAsm.Asm
