/-
What it means for a run to keep to its tape. The places that an
instruction touches are read off its operands (`Machine.touched`); here
they are held against what the machine does. As long as it touches the
tape only, the rest of memory is as if it were not there
(`Listing.confined_add`): nothing in it changes, and with other values
in it the run is the same, line by line and call by call.

The stack pointer as an index is the one exception, since a pop moves it
before it takes the place of its operand. No line of an assembly text
has such an operand (`offStack_of_mem_unit`).
-/
import TapeAsm.Proofs.Asm.Bounds

namespace TapeAsm.Asm

open StateTransition Relation

-- ============================================================== steps

/-- The operand is not in memory at an index in the stack pointer. -/
def Operand.offStack : Operand → Bool
  | .memory _ _ index => index.register != .sp
  | .register _ => true
  | .immediate _ => true
  | .label _ => true

/-- No operand of the line is in memory at an index in the stack
pointer. -/
def Line.OffStack : Line → Prop
  | .directive _ => True
  | .label _ => True
  | .instruction i => ∀ x ∈ i.operands, x.offStack = true

namespace Machine

/-- Between two states a run works on no memory but that at some
places. -/
structure Confined (code : List Line) (places : List (String × Word))
    (m m' : Machine) : Prop where
  /-- Elsewhere memory stays as it is. -/
  outside : ∀ place ∉ places,
    m'.core.memory place.1 place.2 = m.core.memory place.1 place.2
  /-- With other memory elsewhere the run gets to the same line, in a
  state that differs in its memory elsewhere only. -/
  inside : ∀ {d}, Core.Alike places m.core d → ∃ d',
    Reaches (step code) ⟨m.line, d⟩ ⟨m'.line, d'⟩
      ∧ Core.Alike places m'.core d'

variable {code : List Line} {places : List (String × Word)}
  {m m' m'' : Machine}

theorem Confined.refl : Confined code places m m where
  outside _ _ := rfl
  inside {d} hd := ⟨d, .refl, hd⟩

theorem Confined.trans (h : Confined code places m m')
    (h' : Confined code places m' m'') : Confined code places m m'' where
  outside place hplace :=
    (h'.outside place hplace).trans (h.outside place hplace)
  inside hd := by
    obtain ⟨d', hreach, hd'⟩ := h.inside hd
    obtain ⟨d'', hreach', hd''⟩ := h'.inside hd'
    exact ⟨d'', hreach.trans hreach', hd''⟩

variable (hoff : ∀ l ∈ code, l.OffStack)
include hoff

/-- A step works on no memory but that which its instruction touches. -/
theorem Confined.of_step (htouched : m.touched code ⊆ places)
    (h : step code m = some m') : Confined code places m m' := by
  obtain ⟨line, rfl, hsame⟩ | ⟨i, c, hline, heffect, rfl⟩ := step_cases h
  · refine ⟨fun _ _ => rfl, fun {d} hd => ⟨d, .single (hsame d ?_), hd⟩⟩
    rw [hd.rest]
    rfl
  · rw [touched_instruction hline] at htouched
    have hi : Line.OffStack (.instruction i) :=
      hoff _ (List.mem_of_getElem? hline)
    have hworks : Core.WorksOn places (·.effect i) m.core := by
      refine Core.worksOn_effect htouched fun size buffer index hmem => ?_
      simpa [Operand.offStack] using hi _ hmem
    refine ⟨hworks.outside heffect, fun hd => ?_⟩
    obtain ⟨d', hd', halike⟩ := hworks.inside heffect hd
    exact ⟨d', .single (step_effect hline hd'), halike⟩

/-- So does a run, if every step of it touches those places only. -/
theorem Confined.of_reaches
    (htouched : ∀ m', Reaches (step code) m m' → m'.touched code ⊆ places)
    (h : Reaches (step code) m m') : Confined code places m m' := by
  induction h with
  | refl => exact .refl
  | tail hreach hstep ih =>
      exact ih.trans (.of_step hoff (htouched _ hreach) hstep)

end Machine

-- ============================================================ the tape

/-- The places of a tape. -/
def tapePlaces (size : Nat) : List (String × Word) :=
  (List.range size).map fun n => (tapeLabel, BitVec.ofNat 32 n)

/-- A place in the buffer of the tape, as far as the tape goes. -/
theorem mem_tapePlaces {size : Nat} {place : String × Word}
    (hbuffer : place.1 = tapeLabel) (hplace : place.2.toNat < size) :
    place ∈ tapePlaces size := by
  refine List.mem_map.mpr ⟨place.2.toNat, List.mem_range.mpr hplace, ?_⟩
  rw [BitVec.ofNat_toNat, BitVec.setWidth_eq, ← hbuffer]

/-- No instruction of a run has an operand at an index in the stack
pointer. -/
theorem OfRun.offStack {op : Op} {count : Nat} {i : Instruction}
    (h : OfRun op count i) : ∀ x ∈ i.operands, x.offStack = true := by
  have hhead : Register.b ≠ .sp := by decide
  refine of_forms (P := fun i => ∀ x ∈ i.operands, x.offStack = true)
    (by decide) ?_ h
  simp [numberForms, head, cell, Operand.offStack, hhead]

/-- The head is the only index in an assembly text. -/
theorem offStack_of_mem_unit (o : Options) (loops : Nat) (p : Program) :
    ∀ l ∈ unit o loops p, l.OffStack := by
  have hjump : ∀ text mnemonic name, Line.OffStack (.instruction
      (o.comment text { mnemonic, operands := [.label name] })) := by
    intro text mnemonic name x hx
    rw [comment_operands, List.mem_singleton] at hx
    rw [hx]
    rfl
  have hfixed : ∀ i ∈ prologue ++ loopTest ++ epilogue,
      ∀ x ∈ i.operands, x.offStack = true := by decide
  simp only [List.forall_mem_append] at hfixed
  obtain ⟨⟨hprologue, htest⟩, hepilogue⟩ := hfixed
  rw [unit_eq]
  simp only [List.forall_mem_append, List.forall_mem_map]
  refine ⟨⟨⟨?_, hprologue⟩, ?_⟩, hepilogue⟩
  · simp [header, Line.OffStack]
  · refine forall_mem_body (fun op count i hi => ?_) (fun _ => trivial)
      htest (fun number => hjump "[" "je" (endLabel number))
      (fun number => hjump "]" "jmp" (loopLabel number))
      (fun _ => trivial) loops p
    obtain ⟨j, hj, -, hoperands⟩ := ofRun_of_mem_runLines hi
    show ∀ x ∈ i.operands, x.offStack = true
    rw [hoperands]
    exact hj.offStack

/-- A run of the lines that a listing gets for a program works on its
tape alone, if it keeps to the tape all the way. -/
theorem Listing.confined_add (l : Listing) (p : Program) {m m' : Machine} :
    let code := (l.add p).lines.drop l.lines.length
    let size := l.options.tapeSize
    (∀ m', Reaches (Machine.step code) m m' → m'.KeepsTo size code) →
      Reaches (Machine.step code) m m' →
      Machine.Confined code (tapePlaces size) m m' := by
  intro code size hkeeps h
  have hcode : code = unit l.options l.loops p := l.drop_add p
  have hoff : ∀ line ∈ code, line.OffStack := by
    rw [hcode]
    exact offStack_of_mem_unit l.options l.loops p
  refine .of_reaches hoff (fun m' hm' place hplace => ?_) h
  obtain ⟨hbuffer, hlt⟩ := hkeeps m' hm' place hplace
  exact mem_tapePlaces hbuffer hlt

end TapeAsm.Asm
