/-
The runs of a text. Blanks apart, a text is a sequence of groups of one
character each; a group of an operation is a run of it, a group of
brackets is as many brackets, and a group of anything else only keeps
its neighbours apart (`runs`).

The characters of a text go over into the kinds of its tokens one by
one, so these are the groups of the token list (`gathered_eq_grouped`),
and the shape of a text's reading is found from the runs alone
(`Reading.shape?_scanFrom`). So the runs decide what becomes of a text
(`ofTokens_scan_alike`), and a text that spells a program has the runs
that the program is made of (`Program.pieces_of_scan`).
-/
import TapeAsm.Proofs.Source.Groups
import TapeAsm.Proofs.Source.Printing

namespace TapeAsm

-- ============================================================ grouping

/-- Every operation. -/
def Op.all : List Op :=
  [.moveRight, .moveLeft, .increment, .decrement, .write, .read]

/-- The operation with a given symbol. -/
def Op.named? (c : Char) : Option Op :=
  all.find? fun op => op.symbol = c

/-- The piece that a bracket is. -/
def Piece.bracket? (c : Char) : Option Piece :=
  if c = '[' then some opening
  else if c = ']' then some closing
  else none

/-- The pieces that a group of one character makes: a run of an
operation, or brackets one by one. -/
def Piece.ofGroup (group : List Char) : List Piece :=
  match group.head?.bind Op.named? with
  | some op => [run op group.length]
  | none => group.filterMap bracket?

/-- The pieces of a text without blanks, group by group. -/
def gathered (cs : List Char) : List Piece :=
  (cs.splitBy (· == ·)).flatMap Piece.ofGroup

/-- The runs and the brackets of a text. Blanks do not interrupt a run,
every other character does. -/
def runs (cs : List Char) : List Piece :=
  gathered (inked cs)

-- ============================================================ as kinds

/-- Characters of different tokens are different. -/
theorem TokenKind.ofChar_injective : Function.Injective ofChar := by
  intro c d h
  have hsymbol := congrArg symbol? h
  rw [symbol?_ofChar, symbol?_ofChar] at hsymbol
  exact Option.some.inj hsymbol

/-- The groups of a list stay what they are where no two elements become
equal. -/
theorem splitBy_map {α β : Type} [DecidableEq α] [DecidableEq β]
    {f : α → β} (hf : Function.Injective f) (l : List α) :
    (l.map f).splitBy (· == ·)
      = (l.splitBy (· == ·)).map (List.map f) := by
  have hbeq : ∀ a b : α, (f a == f b) = (a == b) := fun a b => by
    rw [Bool.eq_iff_iff, beq_iff_eq, beq_iff_eq, hf.eq_iff]
  refine List.splitBy_eq_iff.mpr ⟨?_, ?_, ?_, ?_⟩
  · rw [← List.map_flatten, List.flatten_splitBy]
  · intro hnil
    obtain ⟨group, hgroup, hmap⟩ := List.mem_map.mp hnil
    exact List.ne_nil_of_mem_splitBy hgroup (List.map_eq_nil_iff.mp hmap)
  · intro image himage
    obtain ⟨group, hgroup, rfl⟩ := List.mem_map.mp himage
    rw [List.isChain_map]
    simpa only [hbeq] using List.isChain_of_mem_splitBy hgroup
  · rw [List.isChain_map]
    refine (List.isChain_getLast_head_splitBy (· == ·) l).imp ?_
    rintro group group' ⟨hne, hne', hdiffers⟩
    refine ⟨by simpa using hne, by simpa using hne', ?_⟩
    rw [List.getLast_map, List.head_map, hbeq, hdiffers]

theorem Op.named?_symbol (op : Op) : named? op.symbol = some op := by
  cases op <;> rfl

theorem Op.named?_eq_none {c : Char} (h : ∀ op : Op, c ≠ op.symbol) :
    named? c = none := by
  rw [named?, List.find?_eq_none]
  intro op _
  simpa using Ne.symm (h op)

/-- A group makes the pieces that its kind makes. -/
theorem Piece.ofKinds_map_ofChar (group : List Char) :
    ofKinds (group.map TokenKind.ofChar) = ofGroup group := by
  have hbracket : ∀ c, (TokenKind.ofChar c).bracket? = bracket? c := by
    intro c
    rcases charClass c with ⟨op, rfl, hkind⟩ | ⟨rfl, hkind⟩ |
      ⟨rfl, hkind⟩ | ⟨hc, hkind⟩
    · rw [hkind]
      cases op <;> rfl
    · rfl
    · rfl
    · rw [hkind, bracket?, if_neg hc.ne_open, if_neg hc.ne_close]
      rfl
  have hbrackets : (group.map TokenKind.ofChar).filterMap
      TokenKind.bracket? = group.filterMap bracket? := by
    rw [List.filterMap_map]
    exact congrArg (List.filterMap · group) (funext hbracket)
  cases group with
  | nil => rfl
  | cons c group =>
      rcases charClass c with ⟨op, rfl, hkind⟩ | ⟨rfl, hkind⟩ |
        ⟨rfl, hkind⟩ | ⟨hc, hkind⟩
      · simp [ofKinds, ofGroup, hkind, Op.named?_symbol]
      · exact hbrackets
      · exact hbrackets
      · rw [ofGroup, List.head?_cons, Option.bind_some,
          Op.named?_eq_none hc.ne_symbol, ← hbrackets, List.map_cons,
          hkind]
        rfl

/-- The pieces of a text are those of the kinds of its characters. -/
theorem gathered_eq_grouped (cs : List Char) :
    gathered cs = grouped (cs.map TokenKind.ofChar) := by
  rw [grouped, splitBy_map TokenKind.ofChar_injective, List.flatMap_map]
  simp only [Piece.ofKinds_map_ofChar]
  rfl

/-- The content of a text's tokens is what the text has besides its
blanks. -/
theorem Token.content_scanFrom (place : Position) (cs : List Char) :
    content (scanFrom place cs) = (inked cs).map TokenKind.ofChar := by
  have hne : ∀ kind ∈ (inked cs).map TokenKind.ofChar,
      kind ≠ .endOfInput := by
    rintro kind hkind rfl
    obtain ⟨c, -, hc⟩ := List.mem_map.mp hkind
    exact TokenKind.ofChar_ne_endOfInput c hc
  rw [content, kinds_scanFrom,
    List.takeWhile_append_of_pos (by simpa using hne)]
  simp

/-- The reading of a text has the shape of its runs. -/
theorem Reading.shape?_scanFrom (place : Position) (cs : List Char) :
    (ofTokens (Token.scanFrom place cs)).shape?
      = some (.ofPieces (runs cs)) := by
  have hend : .endOfInput ∈ (Token.scanFrom place cs).map Token.kind := by
    simp [Token.kinds_scanFrom]
  rw [shape?_ofTokens hend, Token.content_scanFrom, runs,
    gathered_eq_grouped]

-- ============================================================= sources

/-- A text that spells a program has the runs that the program is made
of. -/
theorem Program.pieces_of_scan {source : String} {p : Program}
    (h : Program.ofTokens (Token.scan source) = .ok p) :
    p.pieces = runs source.toList := by
  rw [pieces_of_ofTokens h, Token.scan, Token.content_scanFrom, runs,
    gathered_eq_grouped]

/-- What becomes of a text with a given shape. -/
inductive Shape.Answer : Shape → Except SyntaxError Program → Prop where
  | closed (block : Program) (outer : Shape) (place : Position) :
    Answer (.closed block outer) (.error (.strayClose place))
  | ended (p : Program) : Answer (.ended p) (.ok p)
  | unclosed (opened place : Position) :
    Answer .unclosed (.error (.unclosedLoop opened .endOfInput place))

theorem Reading.answer_program {r : Reading} {s : Shape}
    (h : r.shape? = some s) (tokens : Nat) :
    s.Answer (r.program tokens) := by
  cases r with
  | closed block place stop outer =>
      obtain ⟨outer, -, rfl⟩ := Option.map_eq_some_iff.mp h
      exact .closed block outer place
  | ended block place stop =>
      cases h
      exact .ended block
  | unclosed opened place stop =>
      cases h
      exact .unclosed opened place
  | exhausted => cases h

/-- The runs of a text decide what becomes of it. -/
theorem answer_scan (source : String) :
    (Shape.ofPieces (runs source.toList)).Answer
      (Program.ofTokens (Token.scan source)) :=
  Reading.answer_program (Reading.shape?_scanFrom .start source.toList) _

/-- Two syntax errors of one kind, whatever their places. -/
inductive SyntaxError.Alike : SyntaxError → SyntaxError → Prop where
  | unclosedLoop (opened opened' : Position) (found found' : TokenKind)
    (place place' : Position) :
    Alike (.unclosedLoop opened found place)
      (.unclosedLoop opened' found' place')
  | strayClose (place place' : Position) :
    Alike (.strayClose place) (.strayClose place')
  | noEndMarker (tokens tokens' : Nat) :
    Alike (.noEndMarker tokens) (.noEndMarker tokens')

/-- Texts with the same runs spell the same program, or are wrong in the
same way. -/
theorem ofTokens_scan_alike {source source' : String}
    (h : runs source.toList = runs source'.toList) :
    (∃ p, Program.ofTokens (Token.scan source) = .ok p
        ∧ Program.ofTokens (Token.scan source') = .ok p)
      ∨ ∃ e e', SyntaxError.Alike e e'
        ∧ Program.ofTokens (Token.scan source) = .error e
        ∧ Program.ofTokens (Token.scan source') = .error e' := by
  have hanswer := answer_scan source
  have hanswer' := answer_scan source'
  rw [← h] at hanswer'
  generalize Program.ofTokens (Token.scan source) = result at hanswer ⊢
  generalize Program.ofTokens (Token.scan source') = result' at hanswer' ⊢
  generalize Shape.ofPieces (runs source.toList) = s at hanswer hanswer'
  cases hanswer with
  | closed block outer place =>
      cases hanswer' with
      | closed _ _ place' =>
          exact .inr ⟨_, _, .strayClose place place', rfl, rfl⟩
  | ended p =>
      cases hanswer'
      exact .inl ⟨p, rfl, rfl⟩
  | unclosed opened place =>
      cases hanswer' with
      | unclosed opened' place' =>
          exact .inr ⟨_, _, .unclosedLoop opened opened' _ _ place place', rfl,
            rfl⟩

end TapeAsm
