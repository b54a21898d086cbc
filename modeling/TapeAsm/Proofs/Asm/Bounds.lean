/-
Where a compiled program touches memory. An operand in memory covers as
many places as its width has bytes (`Core.touched`). While the head is
on the tape whenever a cell is used, every instruction keeps to the tape
but one: the push of a run of writes takes a cell along as a double
word, so it reads the three places behind it as well. The whole run
keeps to the tape exactly if no run of writes begins on its last three
cells (`Listing.keepsTo_add_iff`).

The states of the machine are visited as the tree is followed, step by
step (`Follows.along_step`); within a step the head stays where it is
until the cell is used (`KeepsHead`).
-/
import TapeAsm.Proofs.Asm.Places
import TapeAsm.Proofs.Asm.Simulation

namespace TapeAsm

open StateTransition Relation

/-- The program begins with a run of writes. -/
def Program.Writes : Program → Prop
  | done => False
  | run op _ _ => op = .write
  | loop _ _ => False

theorem Program.Writes.usesCell {p : Program} (h : p.Writes) :
    p.usesCell := by
  cases p with
  | done => exact h
  | run op count next =>
      cases h
      exact ⟨nofun, nofun⟩
  | loop inner next => exact h.elim

namespace Asm

-- ============================================================= places

/-- The places that the next instruction reads or writes. -/
def Machine.touched (code : List Line) (m : Machine) :
    List (String × Word) :=
  match code[m.line]? with
  | some (.instruction i) => m.core.touched i
  | _ => []

namespace Machine

/-- The next instruction keeps to a tape of the given size. -/
def KeepsTo (size : Nat) (code : List Line) (m : Machine) : Prop :=
  ∀ place ∈ m.touched code, place.1 = tapeLabel ∧ place.2.toNat < size

/-- The next instruction pushes the double word that begins at a
place. -/
structure Pushes (code : List Line) (i : Word) (m : Machine) : Prop where
  push : ∃ j, code[m.line]? = some (.instruction j) ∧ j.mnemonic = "push"
  touched : m.touched code
    = (Width.dword.places i).map (tapeLabel, ·)

variable {code : List Line} {m : Machine} {i : Instruction}

theorem touched_instruction (h : code[m.line]? = some (.instruction i)) :
    m.touched code = m.core.touched i := by
  unfold touched
  rw [h]

theorem KeepsTo.of_touched_eq_nil {size : Nat}
    (h : m.touched code = []) : m.KeepsTo size code := by
  intro place hplace
  rw [h] at hplace
  cases hplace

/-- A label touches nothing. -/
theorem KeepsTo.of_label {size : Nat} {name : String}
    (h : code[m.line]? = some (.label name)) : m.KeepsTo size code := by
  apply of_touched_eq_nil
  unfold touched
  rw [h]

end Machine

-- =============================================================== runs

/-- The instruction leaves the head where it is. -/
def KeepsHead (i : Instruction) : Prop :=
  ∀ c c' : Core, c.effect i = some c' →
    c'.registers .b = c.registers .b

theorem Core.effects_keepsHead {is : List Instruction}
    (h : ∀ i ∈ is, KeepsHead i) {c c' : Core}
    (heffects : c.effects is = some c') :
    c'.registers .b = c.registers .b := by
  induction is generalizing c with
  | nil =>
      cases heffects
      rfl
  | cons i is ih =>
      obtain ⟨hi, his⟩ := List.forall_mem_cons.mp h
      cases heffect : c.effect i with
      | none =>
          rw [Core.effects, List.foldlM_cons, heffect] at heffects
          cases heffects
      | some c₁ =>
          rw [Core.effects_cons heffect] at heffects
          rw [ih his heffects, hi c c₁ heffect]

theorem KeepsHead.of_combine_cell {i : Instruction}
    {f : ∀ {n}, BitVec n → BitVec n → BitVec n} {n : Nat}
    (h : ∀ c : Core, c.effect i
      = c.combine f (cell (some .byte)) (.immediate n)) : KeepsHead i := by
  intro c c' heffect
  obtain ⟨equal, hcombine⟩ := c.combine_cell f n
  rw [h, hcombine] at heffect
  cases heffect
  rfl

/-- Taking a value off the stack leaves the other registers alone. -/
theorem Core.registers_of_pop (c : Core) {c' : Core} {x : Word}
    (h : c.pop = some (x, c')) {r : Register} (hr : r ≠ .sp) :
    c'.registers r = c.registers r := by
  unfold Core.pop at h
  split at h
  · cases h
  · cases h
    exact Core.registers_set_of_ne hr c _

/-- In a run that uses the cell, the head stays where it is. -/
theorem OfRun.keepsHead {op : Op} {count : Nat} {i : Instruction}
    (hop : op ≠ .moveRight ∧ op ≠ .moveLeft) (h : OfRun op count i) :
    KeepsHead i := by
  cases h with
  | moveRight => exact absurd rfl hop.1
  | moveLeft => exact absurd rfl hop.2
  | increment =>
      exact .of_combine_cell fun c => c.effect_addNumber _ (count % 256)
  | decrement =>
      exact .of_combine_cell fun c => c.effect_subNumber _ (count % 256)
  | push =>
      intro c c' heffect
      have hpush : c.effect (Build.push (cell (some .dword)))
          = (c.value .dword (cell (some .dword))).map c.push := rfl
      rw [hpush, c.value_cell_dword] at heffect
      cases heffect
      exact Core.registers_push_of_ne (by decide) c _
  | write =>
      intro c c' heffect
      have hcall : c.effect (Build.call writeRoutine)
          = c.stack.head?.map c.write := rfl
      rw [hcall, Option.map_eq_some_iff] at heffect
      obtain ⟨x, -, rfl⟩ := heffect
      exact (c.keeps_write x).registers _ (by decide)
  | pop =>
      intro c c' heffect
      have hinto : c.effect (Build.pop (.register ⟨.c, .dword⟩))
          = c.popInto (.register ⟨.c, .dword⟩) := rfl
      rw [hinto, Core.popInto, Option.bind_eq_some_iff] at heffect
      obtain ⟨⟨x, popped⟩, hpop, hassign⟩ := heffect
      cases (popped.assign_dword .c x).symm.trans hassign
      rw [Core.registers_set_of_ne (by decide)]
      exact c.registers_of_pop hpop (by decide)
  | read =>
      intro c c' heffect
      cases heffect
      exact c.keeps_read.registers _ (by decide)
  | store =>
      intro c c' heffect
      have hcopy := Core.copy_eq rfl c.value_scratch
        (c.assign_cell (.inl rfl) _)
      cases hcopy.symm.trans heffect
      rfl

/-- What the instructions of a run touch: nothing, or the cell under the
head, or the double word that begins there. -/
theorem OfRun.touched {op : Op} {count : Nat} {i : Instruction}
    (h : OfRun op count i) (c : Core) :
    c.touched i = []
      ∨ ((op ≠ .moveRight ∧ op ≠ .moveLeft)
        ∧ c.touched i = [(tapeLabel, c.registers .b)])
      ∨ (op = .write ∧ i.mnemonic = "push"
        ∧ c.touched i
          = (Width.dword.places (c.registers .b)).map (tapeLabel, ·)) := by
  have hregister : ∀ part w, c.places w (.register part) = [] :=
    fun _ _ => rfl
  have hnumber : ∀ n w, c.places w (.immediate n) = [] := fun _ _ => rfl
  rw [← c.offset_b]
  cases h with
  | moveRight =>
      refine .inl (c.touched_eq_nil ?_)
      unfold addNumber
      split
      · simp [Build.inc, head, hregister]
      · simp [head, hregister, hnumber]
  | moveLeft =>
      refine .inl (c.touched_eq_nil ?_)
      unfold subNumber
      split
      · simp [Build.dec, head, hregister]
      · simp [head, hregister, hnumber]
  | increment =>
      refine .inr (.inl ⟨by decide, ?_⟩)
      unfold addNumber
      split
      · rfl
      · rfl
  | decrement =>
      refine .inr (.inl ⟨by decide, ?_⟩)
      unfold subNumber
      split
      · rfl
      · rfl
  | push => exact .inr (.inr ⟨rfl, rfl, rfl⟩)
  | write => exact .inl rfl
  | pop => exact .inl rfl
  | read => exact .inl rfl
  | store => exact .inr (.inl ⟨by decide, rfl⟩)

-- ============================================================== steps

/-- Until the cell is used, the head stays where it is. -/
theorem keepsHead_of_mem_firstCode {o : Options} {p : Program}
    (huse : p.usesCell) {i : Instruction} (hi : i ∈ firstCode o p) :
    KeepsHead i := by
  cases p with
  | done => cases hi
  | run op count next =>
      obtain ⟨j, hj, hmnemonic, hoperands⟩ := ofRun_of_mem_runLines hi
      intro c c' heffect
      rw [c.effect_congr hmnemonic hoperands] at heffect
      exact hj.keepsHead huse c c' heffect
  | loop inner next =>
      rw [firstCode, loopTest_eq, List.mem_pair] at hi
      intro c c' heffect
      rcases hi with rfl | rfl
      · have hload := Core.copy_eq rfl (c.value_cell (.inl rfl))
          (c.assign_scratch _)
        cases hload.symm.trans heffect
        exact Core.registers_set_of_ne (by decide) c _
      · cases (Core.compare_immediate 0 rfl c.value_scratch).symm.trans
          heffect
        rfl

/-- What the instructions of a step touch: nothing, or the cell under the
head, or the double word that begins there. -/
theorem touched_of_mem_firstCode {o : Options} {p : Program}
    {i : Instruction} (hi : i ∈ firstCode o p) (c : Core) :
    c.touched i = []
      ∨ (p.usesCell ∧ c.touched i = [(tapeLabel, c.registers .b)])
      ∨ (p.Writes ∧ i.mnemonic = "push"
        ∧ c.touched i
          = (Width.dword.places (c.registers .b)).map (tapeLabel, ·)) := by
  cases p with
  | done => cases hi
  | run op count next =>
      obtain ⟨j, hj, hmnemonic, hoperands⟩ := ofRun_of_mem_runLines hi
      rw [c.touched_congr hmnemonic hoperands, hmnemonic]
      rcases hj.touched c with hnil | ⟨hop, hcell⟩ | ⟨rfl, hpush⟩
      · exact .inl hnil
      · exact .inr (.inl ⟨hop, hcell⟩)
      · exact .inr (.inr ⟨rfl, hpush⟩)
  | loop inner next =>
      rw [firstCode, loopTest_eq, List.mem_pair] at hi
      rcases hi with rfl | rfl
      · refine .inr (.inl ⟨trivial, ?_⟩)
        rw [← c.offset_b]
        rfl
      · exact .inl rfl

/-- Neither the prologue nor the epilogue touches memory. -/
theorem touched_of_mem_around {i : Instruction}
    (hi : i ∈ prologue ++ restoring) (c : Core) : c.touched i = [] := by
  have hplaces : ∀ i ∈ prologue ++ restoring,
      ∀ x ∈ i.operands, ∀ w, c.places w x = [] := by
    rw [prologue_eq]
    simp [restoring, Build.enter, Build.pusha, Build.popa, Build.leave,
      head, answer, Core.places]
  exact c.touched_eq_nil (hplaces i hi)

section Bounds

variable {o : Options} {code : List Line} {entry : Core} {t : Task}
  {m : Machine}

/-- While a step is followed, every instruction keeps to the tape, or it
pushes the double word at the head. -/
theorem Passes.keepsTo_or_pushes (h : Passes o code entry.framed t m)
    (hsize : o.tapeSize ≤ 2 ^ 32)
    (hon : t.rest.usesCell →
      0 ≤ t.state.head ∧ t.state.head < o.tapeSize) :
    m.KeepsTo o.tapeSize code
      ∨ (t.rest.Writes
        ∧ m.Pushes code (BitVec.ofInt 32 t.state.head)) := by
  cases h with
  | @instruction i done todo c hline hsplit hmirrors hdone =>
      have hi : i ∈ firstCode o t.rest := by
        rw [hsplit]
        exact List.mem_append_right _ (List.mem_cons_self ..)
      have hhead : t.rest.usesCell →
          m.core.registers .b = BitVec.ofInt 32 t.state.head := by
        intro huse
        rw [← hmirrors.head]
        refine Core.effects_keepsHead (fun j hj => ?_) hdone
        apply keepsHead_of_mem_firstCode huse
        rw [hsplit]
        exact List.mem_append_left _ hj
      rcases touched_of_mem_firstCode hi m.core with hnil |
        ⟨huse, hcell⟩ | ⟨hwrites, hmnemonic, hplaces⟩
      · refine .inl (.of_touched_eq_nil ?_)
        rw [Machine.touched_instruction hline, hnil]
      · left
        intro place hplace
        rw [Machine.touched_instruction hline, hcell,
          List.mem_singleton] at hplace
        have hnat := hmirrors.toNat_head hsize (hon huse)
        have hplace' := hon huse
        rw [hmirrors.head] at hnat
        rw [hplace, hhead huse]
        refine ⟨rfl, ?_⟩
        show (BitVec.ofInt 32 t.state.head).toNat < o.tapeSize
        omega
      · refine .inr ⟨hwrites, ⟨i, hline, hmnemonic⟩, ?_⟩
        rw [Machine.touched_instruction hline, hplaces,
          hhead hwrites.usesCell]
  | label hline => exact .inl (.of_label hline)
  | @jump i name hline hoperands =>
      refine .inl (.of_touched_eq_nil ?_)
      rw [Machine.touched_instruction hline]
      apply m.core.touched_eq_nil
      intro x hx w
      rw [hoperands, List.mem_singleton] at hx
      rw [hx]
      rfl

/-- What is to be shown of every state of the machine: it keeps to the
tape, or it pushes the double word at the head of a state that the tree
gets to from `t₀`, where a run of writes begins. -/
def Accounted (o : Options) (code : List Line) (t₀ : Task) (m : Machine) :
    Prop :=
  m.KeepsTo o.tapeSize code
    ∨ ∃ t, Reaches Program.step t₀ t ∧ t.rest.Writes
      ∧ m.Pushes code (BitVec.ofInt 32 t.state.head)

variable {t₀ : Task}

/-- The machine is accounted for up to the next place where it follows
the tree, or up to its return. -/
theorem Follows.next (hlabels : (labels code).Nodup)
    (hsize : o.tapeSize ≤ 2 ^ 32)
    (hstays : Program.StaysOn o.tapeSize t₀)
    (ht : Reaches Program.step t₀ t) (h : Follows o code entry t m) :
    (Accounted o code t₀ m ∧ m.Returns code)
      ∨ ∃ m', Along₁ (Machine.step code) (Accounted o code t₀) m m'
        ∧ ∃ t', Reaches Program.step t₀ t' ∧ Follows o code entry t' m' := by
  have hreturns : ∀ m', m'.Returns code → Accounted o code t₀ m' := by
    intro m' hret
    refine .inl (.of_touched_eq_nil ?_)
    rw [Machine.touched_instruction hret]
    rfl
  cases hstep : Program.step t with
  | none =>
      have hdone := Program.step_eq_none hstep
      have hepilogue : ∀ i ∈ restoring, ∀ m' : Machine,
          code[m'.line]? = some (.instruction i) →
          Accounted o code t₀ m' := by
        intro i hi m' hline
        refine .inl (.of_touched_eq_nil ?_)
        rw [Machine.touched_instruction hline]
        exact touched_of_mem_around (List.mem_append_right _ hi) _
      obtain ⟨m', hrun, hret, hconsole⟩ := h.along_return hdone hepilogue
      rcases reflTransGen_iff_eq_or_transGen.mp hrun with rfl | hrun₁
      · exact .inl ⟨hreturns _ hret, hret⟩
      · refine .inr ⟨m', hrun₁, t, ht, ?_⟩
        obtain ⟨rest, s⟩ := t
        obtain rfl : rest = .done := hdone
        exact .returned hconsole hret
  | some t' =>
      have hpasses : ∀ m', Passes o code entry.framed t m' →
          Accounted o code t₀ m' := by
        intro m' hm'
        have hon := hstays t ht
        exact (hm'.keepsTo_or_pushes hsize hon).imp_right
          fun ⟨hwrites, hpushes⟩ => ⟨t, ht, hwrites, hpushes⟩
      obtain ⟨m', hfollows, hrun⟩ :=
        h.along_step hlabels hsize hstep hpasses
      exact .inr ⟨m', hrun, t', ht.tail hstep, hfollows⟩

/-- Where one stretch of the machine ends and the next begins: at the
start, or where it follows a state that the tree gets to. -/
def Followed (o : Options) (code : List Line) (entry : Core) (t₀ : Task)
    (start m : Machine) : Prop :=
  m = start ∨ ∃ t, Reaches Program.step t₀ t ∧ Follows o code entry t m

/-- The machine is accounted for wherever it gets, if it is so up to
where it begins to follow the tree. -/
theorem accounted_of_reaches {start m₀ : Machine}
    (hlabels : (labels code).Nodup) (hsize : o.tapeSize ≤ 2 ^ 32)
    (hstays : Program.StaysOn o.tapeSize t₀)
    (hstart : Along₁ (Machine.step code) (Accounted o code t₀) start m₀)
    (hfollows : Follows o code entry t₀ m₀)
    (h : Reaches (Machine.step code) start m) : Accounted o code t₀ m := by
  have hnext : ∀ {m}, Followed o code entry t₀ start m →
      (Accounted o code t₀ m ∧ m.Returns code)
        ∨ ∃ m', Along₁ (Machine.step code) (Accounted o code t₀) m m'
          ∧ Followed o code entry t₀ start m' := by
    rintro m (rfl | ⟨t, ht, hm⟩)
    · exact .inr ⟨m₀, hstart, .inr ⟨t₀, .refl, hfollows⟩⟩
    · rcases hm.next hlabels hsize hstays ht with hend | ⟨m', hrun, hjoint⟩
      · exact .inl hend
      · exact .inr ⟨m', hrun, .inr hjoint⟩
  exact (holds_of_stretches Machine.Returns.step_eq_none hnext (.inl rfl)
    h).1

/-- Where a run of writes begins, the machine pushes. -/
theorem Follows.pushes (h : Follows o code entry t m)
    (hwrites : t.rest.Writes) :
    m.Pushes code (BitVec.ofInt 32 t.state.head) := by
  cases h with
  | @running t line c hplaced hmirrors =>
      obtain ⟨rest, s⟩ := t
      cases hplaced.meets with
      | finish => cases hwrites
      | enter => cases hwrites
      | back => cases hwrites
      | run op count hline hnext =>
          obtain rfl : op = .write := hwrites
          have hpush : code[line]? = some (.instruction (o.comment
              (runText .write count) (Build.push (cell (some .dword))))) :=
            At.getElem? hline
          refine ⟨⟨_, hpush, comment_mnemonic ..⟩, ?_⟩
          rw [Machine.touched_instruction hpush, c.touched_congr
            (comment_mnemonic ..) (comment_operands ..), ← hmirrors.head,
            ← c.offset_b]
          rfl
  | returned => cases hwrites

end Bounds

-- ====================================================== the last cells

/-- The double word at the head is on the tape but for the last three
cells; there is nothing behind a tape that takes all places. -/
theorem dword_on_tape_iff {size : Nat} {head : Int}
    (hsize : size ≤ 2 ^ 32) (hon : 0 ≤ head ∧ head < size) :
    (∀ i ∈ Width.dword.places (BitVec.ofInt 32 head), i.toNat < size)
      ↔ size = 2 ^ 32 ∨ head + 4 ≤ size := by
  obtain ⟨n, rfl⟩ := Int.eq_ofNat_of_zero_le hon.1
  have hn : n < size := by omega
  rw [BitVec.ofInt_natCast]
  have hplaces : (∀ i ∈ Width.dword.places (BitVec.ofNat 32 n),
        i.toNat < size)
      ↔ n < size ∧ (n + 1) % 2 ^ 32 < size ∧ (n + 2) % 2 ^ 32 < size
        ∧ (n + 3) % 2 ^ 32 < size := by
    have hmod : n % 4294967296 = n := Nat.mod_eq_of_lt (by omega)
    simp [Width.places, BitVec.toNat_add, hmod]
  rw [hplaces]
  omega

theorem Machine.Pushes.keepsTo_iff {code : List Line} {i : Word}
    {m : Machine} (h : m.Pushes code i) (size : Nat) :
    m.KeepsTo size code
      ↔ ∀ j ∈ Width.dword.places i, j.toNat < size := by
  unfold Machine.KeepsTo
  rw [h.touched]
  simp

-- ======================================================== the program

/-- The lines that a listing gets for a program touch its tape and
nothing else, except where the push of a run of writes, for a cell on the
tape, takes places behind the tape along; and so it does exactly if the
run of the program gets to a run of writes on one of the last three
cells. The head has to be on the tape whenever the run of the program
uses a cell. -/
theorem Listing.keepsTo_add_iff (l : Listing) {p : Program}
    (hpositive : p.Positive) (hsize : l.options.tapeSize ≤ 2 ^ 32)
    {input : Stream' Word}
    (hstays : Program.StaysOn l.options.tapeSize ⟨p, .blank input⟩)
    {c : Core} (hconsole : c.console = .ofInput input)
    (hblank : ∀ i : Word, i.toNat < l.options.tapeSize →
      c.memory tapeLabel i = 0) :
    let code := (l.add p).lines.drop l.lines.length
    let size := l.options.tapeSize
    ∃ line, Machine.target code entryLabel = some line
      ∧ (∀ m, Reaches (Machine.step code) ⟨line, c⟩ m →
        m.KeepsTo size code
          ∨ ∃ i : Word, i.toNat < size ∧ m.Pushes code i)
      ∧ ((∀ m, Reaches (Machine.step code) ⟨line, c⟩ m →
          m.KeepsTo size code)
        ↔ ∀ t, Reaches Program.step ⟨p, .blank input⟩ t →
          t.rest.Writes →
          size = 2 ^ 32 ∨ t.state.head + 4 ≤ size) := by
  intro code size
  let t₀ : Task := ⟨p, .blank input⟩
  let ready : Core := { c.framed.set .b 0 with equal := true }
  have hcode : code = unit l.options l.loops p := l.drop_add p
  have hlabels : (labels code).Nodup := by
    rw [hcode]
    exact nodup_labels_unit l.options l.loops p
  have hunit : At code 5 (.label entryLabel :: (prologue.map .instruction
      ++ (body l.options l.loops p ++ epilogue.map .instruction))) := by
    rw [hcode]
    exact at_entry l.options l.loops p
  have hfollows : Follows l.options code c t₀ ⟨9, ready⟩ :=
    .running (.outermost hunit.tail.right) (.blank hblank hconsole)
      hpositive hstays
  have hstart : Along₁ (Machine.step code) (Accounted l.options code t₀)
      ⟨5, c⟩ ⟨9, ready⟩ := by
    have hlabel := hunit.getElem?
    refine .head' ⟨.inl (.of_label hlabel), step_label hlabel c⟩
      (along_effects hunit.tail.left c.effects_prologue ?_)
    intro done i todo c₁ hsplit hline _
    refine .inl (.of_touched_eq_nil ?_)
    rw [Machine.touched_instruction hline]
    apply touched_of_mem_around
    rw [hsplit]
    simp
  have hall : ∀ m, Reaches (Machine.step code) ⟨5, c⟩ m →
      Accounted l.options code t₀ m :=
    fun _ => accounted_of_reaches hlabels hsize hstays hstart hfollows
  have hon : ∀ t, Reaches Program.step t₀ t → t.rest.Writes →
      0 ≤ t.state.head ∧ t.state.head < size :=
    fun t ht hwrites => hstays t ht hwrites.usesCell
  refine ⟨5, target_eq_some hlabels hunit.getElem?, fun m hm => ?_, ?_⟩
  · refine (hall m hm).imp_right fun ⟨t, ht, hwrites, hpushes⟩ =>
      ⟨_, ?_, hpushes⟩
    have hhead := hon t ht hwrites
    rw [BitVec.toNat_ofInt]
    omega
  · constructor
    · intro hkeeps t ht hwrites
      obtain ⟨m, hm, hreach⟩ := hfollows.of_reaches hlabels hsize ht
      have hpushes := hm.pushes hwrites
      rw [← dword_on_tape_iff hsize (hon t ht hwrites),
        ← hpushes.keepsTo_iff]
      exact hkeeps m (hstart.along.reaches.trans hreach)
    · intro hlast m hm
      rcases hall m hm with hkeeps | ⟨t, ht, hwrites, hpushes⟩
      · exact hkeeps
      · rw [hpushes.keepsTo_iff, dword_on_tape_iff hsize (hon t ht hwrites)]
        exact hlast t ht hwrites

/-- On a tape of one cell, a single write touches places behind it. -/
theorem Listing.keepsTo_add_iff_last_cell :
    let p : Program := .run .write 1 .done
    let l : Listing := { options := { tapeSize := 1, comments := false } }
    let input : Stream' Word := Stream'.const 0
    let c : Core :=
      { registers := fun _ => 0
        equal := false
        memory := fun _ _ => 0
        stack := []
        console := .ofInput input
        leftovers := Stream'.const ⟨0, 0, 0, false⟩ }
    let code := (l.add p).lines.drop l.lines.length
    Program.StaysOn l.options.tapeSize ⟨p, .blank input⟩
      ∧ ∃ line, Machine.target code entryLabel = some line
        ∧ ∃ m, Reaches (Machine.step code) ⟨line, c⟩ m
          ∧ ¬ m.KeepsTo l.options.tapeSize code := by
  intro p l input c code
  have hstays : Program.StaysOn l.options.tapeSize ⟨p, .blank input⟩ :=
    .of_step (fun _ => by decide) rfl (Program.staysOn_done _ _)
  obtain ⟨line, htarget, -, hiff⟩ := l.keepsTo_add_iff (p := p)
    ⟨by decide, trivial⟩ (by decide) hstays (c := c) rfl fun _ _ => rfl
  refine ⟨hstays, line, htarget, ?_⟩
  by_contra hnone
  have hkeeps : ∀ m, Reaches (Machine.step code) ⟨line, c⟩ m →
      m.KeepsTo l.options.tapeSize code := by
    intro m hm
    by_contra hout
    exact hnone ⟨m, hm, hout⟩
  have hlast := hiff.mp hkeeps ⟨p, .blank input⟩ .refl rfl
  revert hlast
  decide

end Asm

end TapeAsm
