/-
The state of the machine as the mirror image of a state of the tape
(`Mirrors`): `ebx` holds the place of the head, the buffer holds the
cells, the console is the same, and the stack is as the prologue leaves
it. The prologue makes a mirror image of a blank tape
(`Mirrors.blank`), the code of a run takes a mirror image to the mirror
image of what the run does (`Mirrors.effects_runCode`), and the test of
a loop shows in the flag whether the cell is blank
(`Mirrors.effects_loopTest`).

The head may leave the tape between two uses of a cell; so `ebx` counts
modulo 2^32, and only where a cell is used is it on the tape, where it
is the head itself.
-/
import TapeAsm.Proofs.Asm.Frame
import TapeAsm.Proofs.Run.Program

namespace TapeAsm.Asm

-- ========================================================= the mirror

/-- The state of the machine is the mirror image of a state of the tape,
with so many cells; the stack is as in the state `f`. -/
structure Mirrors (size : Nat) (f : Core) (s : State) (c : Core) :
    Prop where
  head : c.registers .b = BitVec.ofInt 32 s.head
  cells : ∀ i : Word, i.toNat < size →
    c.memory tapeLabel i = s.cells i.toNat
  console : c.console = s.console
  stack : c.stack = f.stack
  pointer : c.registers .sp = f.registers .sp

namespace Mirrors

variable {size : Nat} {f c c' : Core} {s : State}

/-- Behind the prologue, a blank tape is mirrored. -/
theorem blank {input : Stream' Word}
    (hblank : ∀ i : Word, i.toNat < size → c.memory tapeLabel i = 0)
    (hconsole : c.console = .ofInput input) :
    Mirrors size c.framed (.blank input)
      { c.framed.set .b 0 with equal := true } where
  head := Core.registers_set_same c.framed .b 0
  cells := hblank
  console := hconsole
  stack := rfl
  pointer :=
    have hne : Register.sp ≠ .b := by decide
    Core.registers_set_of_ne hne c.framed 0

/-- The flag does not show in the mirror. -/
theorem withEqual (h : Mirrors size f s c) (equal : Bool) :
    Mirrors size f s { c with equal } :=
  ⟨h.head, h.cells, h.console, h.stack, h.pointer⟩

/-- What happens at the console happens on both sides. -/
theorem of_keeps (h : Mirrors size f s c) (hkeeps : c.Keeps c')
    {console : Console} (hconsole : c'.console = console) :
    Mirrors size f { s with console } c' where
  head := (hkeeps.registers _ (by decide)).trans h.head
  cells i hi := by
    rw [hkeeps.memory]
    exact h.cells i hi
  console := hconsole
  stack := hkeeps.stack.trans h.stack
  pointer := (hkeeps.registers _ (by decide)).trans h.pointer

/-- The head moves on both sides. -/
theorem move (h : Mirrors size f s c) {x : Word} {head : Int}
    (hx : x = BitVec.ofInt 32 head) :
    Mirrors size f { s with head } (c.set .b x) where
  head := (Core.registers_set_same ..).trans hx
  cells := h.cells
  console := h.console
  stack := h.stack
  pointer := by
    rw [Core.registers_set_of_ne (by decide)]
    exact h.pointer

section OnTape

variable (hsize : size ≤ 2 ^ 32)
  (hon : 0 ≤ s.head ∧ s.head < size)
include hsize hon

/-- On the tape, `ebx` is the place of the head itself. -/
theorem toNat_head (h : Mirrors size f s c) :
    ((c.registers .b).toNat : Int) = s.head := by
  rw [h.head, BitVec.toNat_ofInt]
  omega

/-- The cell under the head, in the buffer. -/
theorem cell_eq (h : Mirrors size f s c) :
    c.memory tapeLabel (c.registers .b) = s.cell := by
  have hhead := h.toNat_head hsize hon
  rw [h.cells _ (by omega), hhead]
  rfl

/-- The cell under the head changes on both sides. -/
theorem setCell (h : Mirrors size f s c) (x : Byte) :
    Mirrors size f (s.setCell x)
      { c with memory := c.memory.put tapeLabel (c.registers .b) x } where
  head := h.head
  cells i hi := by
    have hhead := h.toNat_head hsize hon
    by_cases heq : i = c.registers .b
    · rw [heq, hhead]
      simp [State.setCell]
    · -- a word is one place of the tape only, whatever the head was before
      have hne : ((i.toNat : Nat) : Int) ≠ s.head := by
        intro hi'
        apply heq
        apply BitVec.eq_of_toNat_eq
        omega
      have hcell : (s.setCell x).cells i.toNat = s.cells i.toNat :=
        Function.update_of_ne hne ..
      show c.memory.put tapeLabel (c.registers .b) x tapeLabel i = _
      rw [Memory.put_of_ne heq, hcell, h.cells i hi]
  console := h.console
  stack := h.stack
  pointer := h.pointer

end OnTape

-- =============================================================== runs

/-- An instruction that computes a new place for the head. -/
private theorem effects_move (h : Mirrors size f s c) {i : Instruction}
    {g : ∀ {n}, BitVec n → BitVec n → BitVec n} {n : Nat} {head : Int}
    (heffect : c.effect i = c.combine g Asm.head (.immediate n))
    (hhead : g (BitVec.ofInt 32 s.head) (BitVec.ofNat 32 n)
      = BitVec.ofInt 32 head) :
    ∃ c', c.effects [i] = some c' ∧ Mirrors size f { s with head } c' := by
  obtain ⟨equal, hcombine⟩ := c.combine_head g n
  refine ⟨_, Core.effects_cons (heffect.trans hcombine) [],
    (h.move ?_).withEqual equal⟩
  rw [h.head, hhead]

/-- An instruction that computes a new byte for the cell. -/
private theorem effects_change (h : Mirrors size f s c)
    (hsize : size ≤ 2 ^ 32) (hon : 0 ≤ s.head ∧ s.head < size)
    {i : Instruction} {g : ∀ {n}, BitVec n → BitVec n → BitVec n} {n : Nat}
    {x : Byte}
    (heffect : c.effect i = c.combine g (cell (some .byte)) (.immediate n))
    (hcell : g s.cell (BitVec.ofNat 8 n) = x) :
    ∃ c', c.effects [i] = some c' ∧ Mirrors size f (s.setCell x) c' := by
  obtain ⟨equal, hcombine⟩ := c.combine_cell g n
  rw [h.cell_eq hsize hon, hcell] at hcombine
  exact ⟨_, Core.effects_cons (heffect.trans hcombine) [],
    (h.setCell hsize hon x).withEqual equal⟩

/-- What the code of a run does is what the run does. -/
theorem effects_runCode (h : Mirrors size f s c) (hsize : size ≤ 2 ^ 32)
    (op : Op) {count : Nat} (hpos : 0 < count)
    (hon : op ≠ .moveRight ∧ op ≠ .moveLeft →
      0 ≤ s.head ∧ s.head < size) :
    ∃ c', c.effects (runCode op count) = some c'
      ∧ Mirrors size f (op.perform count s) c' := by
  have hmod : BitVec.ofNat 8 (count % 256) = BitVec.ofNat 8 count := by
    apply BitVec.eq_of_toNat_eq
    simp
  cases op with
  | moveRight =>
      rw [runCode_moveRight]
      refine h.effects_move (c.effect_addNumber Asm.head count) ?_
      rw [BitVec.ofInt_add, BitVec.ofInt_natCast]
  | moveLeft =>
      rw [runCode_moveLeft]
      refine h.effects_move (c.effect_subNumber Asm.head count) ?_
      rw [Int.sub_eq_add_neg, BitVec.ofInt_add, BitVec.ofInt_neg,
        BitVec.ofInt_natCast, BitVec.sub_eq_add_neg]
  | increment =>
      rw [runCode_increment]
      refine h.effects_change hsize (hon (by decide))
        (c.effect_addNumber (cell (some .byte)) (count % 256)) ?_
      rw [hmod]
  | decrement =>
      rw [runCode_decrement]
      refine h.effects_change hsize (hon (by decide))
        (c.effect_subNumber (cell (some .byte)) (count % 256)) ?_
      rw [hmod]
  | write =>
      obtain ⟨c', heffects, hkeeps, hconsole⟩ :=
        c.effects_runCode_write count
      refine ⟨c', heffects, h.of_keeps hkeeps ?_⟩
      rw [hconsole, h.cell_eq hsize (hon (by decide)), h.console]
  | read =>
      obtain ⟨n, rfl⟩ := Nat.exists_eq_add_one.mpr hpos
      obtain ⟨c', heffects, hkeeps, hconsole⟩ := c.effects_runCode_read n
      have h' := h.of_keeps hkeeps hconsole
      refine ⟨_, heffects, ?_⟩
      rw [Op.perform_read_succ, ← h.console]
      refine h'.setCell hsize ?_ _
      exact hon (by decide)

/-- The test of a loop shows in the flag whether the loop is over. -/
theorem effects_loopTest (h : Mirrors size f s c) (hsize : size ≤ 2 ^ 32)
    (hon : 0 ≤ s.head ∧ s.head < size) :
    ∃ c', c.effects loopTest = some c' ∧ Mirrors size f s c'
      ∧ (c'.equal = true ↔ s.cell = 0) := by
  obtain ⟨c', heffects, hkeeps, hconsole, hequal⟩ := c.effects_loopTest
  refine ⟨c', heffects, h.of_keeps hkeeps (hconsole.trans h.console), ?_⟩
  rw [hequal, h.cell_eq hsize hon, beq_iff_eq]

end Mirrors

end TapeAsm.Asm
