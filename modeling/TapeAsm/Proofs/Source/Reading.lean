/-
What the reading of a text's tokens says about the text. A reading is
described in terms of the characters themselves (`Reading.Describes`):
which stretch spells its block, where the character that stops the block
stands, and what is left over. Something in front lengthens the stretch
(`Describes.prepend`), be it an idle character, an operation or a whole
loop, so the description goes through by induction on the text
(`describes_scanFrom`).

The blocks of a reading have no empty runs, whatever the tokens
(`positive_of_mem_blocks`).
-/
import TapeAsm.Proofs.Program.Descent
import TapeAsm.Proofs.Run.Program
import TapeAsm.Proofs.Source.Spelling
import TapeAsm.Source.Scanner

namespace TapeAsm

open Brackets

namespace Reading

/-- The block at the start of a token list, if it comes to a stop. -/
def block? : Reading → Option Program
  | closed block _ _ _ => some block
  | ended block _ _ => some block
  | unclosed .. => none
  | exhausted => none

@[simp] theorem block?_mapBlock (f : Program → Program) (r : Reading) :
    (r.mapBlock f).block? = r.block?.map f := by
  cases r <;> rfl

/-- A list that begins with an operation has a block that begins with a
run of it. -/
theorem block?_of_startsWith {op : Op} {tokens : List Token}
    (h : startsWith op tokens = true) {b : Program}
    (hb : (ofTokens tokens).block? = some b) :
    ∃ count next, b = .run op count next := by
  induction tokens generalizing b with
  | nil => cases h
  | cons token rest ih =>
      have hkind : token.kind = .op op := by
        simpa [startsWith] using h
      simp only [ofTokens, hkind, block?_mapBlock,
        Option.map_eq_some_iff] at hb
      obtain ⟨b', hb', rfl⟩ := hb
      cases hjoins : startsWith op rest with
      | true =>
          obtain ⟨count, next, rfl⟩ := ih hjoins hb'
          exact ⟨count + 1, next, rfl⟩
      | false =>
          cases b' with
          | done => exact ⟨1, _, rfl⟩
          | run op' count next => exact ⟨1, _, rfl⟩
          | loop body next => exact ⟨1, _, rfl⟩

/-- One operation in front is one operation more, whether it joins the
first run or is a run of its own. -/
theorem singly_precede {op : Op} {tokens : List Token} {b : Program}
    (hb : (ofTokens tokens).block? = some b) :
    (b.precede op (startsWith op tokens)).singly
      = .run op 1 b.singly := by
  cases hjoins : startsWith op tokens with
  | true =>
      obtain ⟨count, next, rfl⟩ := block?_of_startsWith hjoins hb
      show (Program.run op 1)^[count + 1] next.singly = _
      rw [Function.iterate_succ_apply']
      rfl
  | false =>
      rw [Program.precede_alone]
      rfl

-- =============================================== what a text reads as

/-- The reading is that of a text which begins at `place`. -/
def Describes (place : Position) (cs : List Char) : Reading → Prop
  | closed block stopAt _ outer =>
    ∃ inner rest, cs = inner ++ ']' :: rest
      ∧ Spells inner block.singly
      ∧ stopAt = place.afterAll inner
      ∧ outer.Describes (place.afterAll (inner ++ [']'])) rest
  | ended block stopAt _ =>
    Spells cs block.singly ∧ stopAt = place.afterAll cs
  | unclosed opened stopAt _ =>
    ∃ pre post, cs = pre ++ '[' :: post
      ∧ Contained pre ∧ Balanced post
      ∧ opened = place.afterAll pre ∧ stopAt = place.afterAll cs
  | exhausted => False

/-- A stretch in front of a text, if it spells something and thereby
changes the block as it should. -/
theorem Describes.prepend {place : Position} (front : List Char)
    {cs : List Char} {f : Program → Program} {r : Reading}
    (hspells : ∀ b, r.block? = some b → ∀ cs, Spells cs b.singly →
      Spells (front ++ cs) (f b).singly)
    (hfront : Balanced front)
    (h : r.Describes (place.afterAll front) cs) :
    (r.mapBlock f).Describes place (front ++ cs) := by
  cases r with
  | closed block stopAt stop outer =>
      obtain ⟨inner, rest, rfl, hinner, rfl, houter⟩ := h
      refine ⟨front ++ inner, rest, by simp, hspells _ rfl _ hinner, ?_, ?_⟩
      · rw [Position.afterAll_append]
      · rwa [List.append_assoc, Position.afterAll_append place]
  | ended block stopAt stop =>
      obtain ⟨hcs, rfl⟩ := h
      exact ⟨hspells _ rfl _ hcs, by rw [Position.afterAll_append]⟩
  | unclosed opened stopAt stop =>
      obtain ⟨pre, post, rfl, hpre, hpost, rfl, rfl⟩ := h
      refine ⟨front ++ pre, post, by simp, hfront.1.append hpre,
        hpost, ?_, ?_⟩
      · rw [Position.afterAll_append place]
      · rw [Position.afterAll_append place]
  | exhausted => exact h

/-- An opening bracket in front: what stops the block closes the
bracket, and if nothing does, the bracket is the innermost open one. -/
theorem Describes.enclose {place : Position} {cs : List Char}
    {r : Reading} (h : r.Describes (place.after '[') cs) :
    (r.enclose place).Describes place ('[' :: cs) := by
  cases r with
  | closed block stopAt stop outer =>
      obtain ⟨inner, rest, rfl, hinner, -, houter⟩ := h
      have hloop : Balanced ('[' :: (inner ++ [']'])) :=
        hinner.balanced.enclose
      have htext : ∀ ds, ('[' :: (inner ++ [']'])) ++ ds
          = '[' :: (inner ++ ']' :: ds) := fun ds => by simp
      rw [← htext rest]
      refine Describes.prepend _ (fun b _ ds hds => ?_) hloop houter
      rw [htext ds]
      exact .loop hinner hds
  | ended block stopAt stop =>
      obtain ⟨hcs, rfl⟩ := h
      exact ⟨[], cs, rfl, contained_nil, hcs.balanced, rfl, rfl⟩
  | unclosed opened stopAt stop =>
      obtain ⟨pre, post, rfl, hpre, hpost, rfl, rfl⟩ := h
      exact ⟨'[' :: pre, post, rfl, hpre.cons (by decide), hpost, rfl, rfl⟩
  | exhausted => exact h

/-- A character without a meaning in front. -/
theorem Describes.idle {place : Position} {c : Char} {cs : List Char}
    {r : Reading} (hc : Idle c) (h : r.Describes (place.after c) cs) :
    r.Describes place (c :: cs) := by
  have hid : r.mapBlock id = r := by cases r <;> rfl
  rw [← hid]
  exact Describes.prepend [c] (fun b _ ds hds => .idle hc hds)
    (balanced_singleton hc.ne_open hc.ne_close) h

/-- The reading of a text's tokens is a reading of the text. -/
theorem describes_scanFrom (place : Position) (cs : List Char) :
    (ofTokens (Token.scanFrom place cs)).Describes place cs := by
  induction cs generalizing place with
  | nil => exact ⟨.done, rfl⟩
  | cons c cs ih =>
      have hrest := ih (place.after c)
      by_cases hblank : isBlank c = true
      · rw [Token.scanFrom, if_pos hblank]
        exact hrest.idle (idle_of_isBlank hblank)
      · rw [Token.scanFrom, if_neg hblank]
        rcases charClass c with ⟨op, rfl, hkind⟩ | ⟨rfl, hkind⟩ |
          ⟨rfl, hkind⟩ | ⟨hc, hkind⟩
        · simp only [ofTokens, hkind]
          refine Describes.prepend [op.symbol]
            (fun b hb ds hds => ?_) (Spells.done.op op).balanced hrest
          rw [singly_precede hb]
          exact .op op hds
        · simp only [ofTokens, hkind]
          exact hrest.enclose
        · simp only [ofTokens, hkind]
          exact ⟨[], cs, rfl, .done, rfl, hrest⟩
        · simp only [ofTokens, hkind]
          exact hrest.idle hc

-- ========================================================= empty runs

/-- Every block of a reading, from the inside out. -/
def blocks : Reading → List Program
  | closed block _ _ outer => block :: outer.blocks
  | ended block _ _ => [block]
  | unclosed .. => []
  | exhausted => []

/-- One operation more does not make a run empty. -/
theorem positive_precede {b : Program} (h : b.Positive) (op : Op)
    (joins : Bool) : (b.precede op joins).Positive := by
  cases b with
  | done => exact ⟨Nat.one_pos, trivial⟩
  | run op' count next =>
      cases joins with
      | true => exact ⟨Nat.succ_pos count, h.2⟩
      | false => exact ⟨Nat.one_pos, h⟩
  | loop body next => exact ⟨Nat.one_pos, h⟩

/-- What holds of every block of a reading holds of them changed. -/
private theorem mem_blocks_mapBlock {r : Reading} {f : Program → Program}
    {b : Program} (hb : b ∈ (r.mapBlock f).blocks) :
    (∃ b' ∈ r.blocks, b = f b') ∨ b ∈ r.blocks := by
  cases r with
  | closed block stopAt stop outer =>
      rcases List.mem_cons.mp hb with rfl | hb
      · exact .inl ⟨block, by simp [blocks], rfl⟩
      · exact .inr (List.mem_cons_of_mem _ hb)
  | ended block stopAt stop =>
      rw [List.mem_singleton.mp hb]
      exact .inl ⟨block, by simp [blocks], rfl⟩
  | unclosed opened stopAt stop => cases hb
  | exhausted => cases hb

/-- No token list reads as a block with an empty run in it. -/
theorem positive_of_mem_blocks {tokens : List Token} {b : Program}
    (hb : b ∈ (ofTokens tokens).blocks) : b.Positive := by
  induction tokens generalizing b with
  | nil => cases hb
  | cons token rest ih =>
      cases hkind : token.kind with
      | op op =>
          simp only [ofTokens, hkind] at hb
          rcases mem_blocks_mapBlock hb with ⟨b', hb', rfl⟩ | hb
          · exact positive_precede (ih hb') op _
          · exact ih hb
      | loopOpen =>
          simp only [ofTokens, hkind] at hb
          cases hr : ofTokens rest with
          | closed body stopAt stop outer =>
              rw [hr] at hb ih
              have hbody : body.Positive := ih (by simp [blocks])
              have houter : ∀ {b}, b ∈ outer.blocks → b.Positive :=
                fun h => ih (List.mem_cons_of_mem _ h)
              rcases mem_blocks_mapBlock hb with ⟨b', hb', rfl⟩ | hb
              · exact ⟨hbody, houter hb'⟩
              · exact houter hb
          | ended block stopAt stop => rw [hr] at hb; cases hb
          | unclosed opened stopAt stop => rw [hr] at hb; cases hb
          | exhausted => rw [hr] at hb; cases hb
      | loopClose =>
          simp only [ofTokens, hkind] at hb
          rcases List.mem_cons.mp hb with rfl | hb
          · trivial
          · exact ih hb
      | endOfInput =>
          simp only [ofTokens, hkind] at hb
          rw [List.mem_singleton.mp hb]
          trivial
      | other c =>
          simp only [ofTokens, hkind] at hb
          exact ih hb

end Reading

-- =========================================================== programs

/-- The reading behind a program that a token list spells. -/
theorem Program.ofTokens_eq_ok {tokens : List Token} {p : Program}
    (h : Program.ofTokens tokens = .ok p) :
    ∃ place stop, Reading.ofTokens tokens = .ended p place stop := by
  simp only [Program.ofTokens, Cursor.readProgram, Cursor.ofTokens] at h
  cases hr : Reading.ofTokens tokens with
  | closed block stopAt stop outer => rw [hr] at h; cases h
  | ended block stopAt stop =>
      rw [hr] at h
      cases h
      exact ⟨stopAt, stop, rfl⟩
  | unclosed opened stopAt stop => rw [hr] at h; cases h
  | exhausted => rw [hr] at h; cases h

/-- A program that a token list spells has no empty runs. -/
theorem Program.positive_of_ofTokens {tokens : List Token} {p : Program}
    (h : Program.ofTokens tokens = .ok p) : p.Positive := by
  obtain ⟨place, stop, hr⟩ := Program.ofTokens_eq_ok h
  have hmem : p ∈ (Reading.ofTokens tokens).blocks := by
    simp [hr, Reading.blocks]
  exact Reading.positive_of_mem_blocks hmem

/-- A text spells the program that its tokens do. -/
theorem Program.spells_of_scan {source : String} {p : Program}
    (h : Program.ofTokens (Token.scan source) = .ok p) :
    Spells source.toList p.singly := by
  obtain ⟨place, stop, hr⟩ := Program.ofTokens_eq_ok h
  have hdescribes := Reading.describes_scanFrom .start source.toList
  rw [show Token.scanFrom .start source.toList = Token.scan source from rfl,
    hr] at hdescribes
  exact hdescribes.1

theorem Program.symbols_singly (p : Program) :
    p.singly.symbols = p.symbols := by
  induction p with
  | done => rfl
  | run op count next ih =>
      have hrun : ∀ n, ((Program.run op 1)^[n] next.singly).symbols
          = List.replicate n op.symbol ++ next.singly.symbols := by
        intro n
        induction n with
        | zero => rfl
        | succ n ihn =>
            rw [Function.iterate_succ_apply', symbols_run, ihn]
            rfl
      rw [singly, hrun, ih, symbols_run]
  | loop body next ihBody ih =>
      rw [singly, symbols_loop, ihBody, ih, symbols_loop]

/-- A program has the symbols of the text that it is read from. -/
theorem Program.symbols_of_scan {source : String} {p : Program}
    (h : Program.ofTokens (Token.scan source) = .ok p) :
    source.toList.filter isSymbol = p.symbols := by
  rw [(spells_of_scan h).symbols_eq, symbols_singly]

end TapeAsm
