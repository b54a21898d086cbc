/-
The places in memory that an instruction works on. An operand in memory
covers as many places as the width at which it is taken has bytes; what
its operands cover is what an instruction touches (`Core.touched`).

Memory beyond that has nothing to do with the instruction, either way: it
stays as it is, and whatever it holds, the instruction does the same
(`Core.WorksOn`, `Core.worksOn_effect`). That is shown for each kind of
instruction; an instruction without operands in memory works on none of
it, and so on any places one likes (`Core.WorksOn.of_blind`).
-/
import TapeAsm.Proofs.Asm.Effects

namespace TapeAsm.Asm

-- ============================================================= places

/-- The places that a value covers, from the first one on. -/
def Width.places (w : Width) (i : Word) : List Word :=
  match w with
  | .byte => [i]
  | .word => [i, i + 1]
  | .dword => [i, i + 1, i + 2, i + 3]

namespace Memory

/-- A value is loaded from its own places. -/
theorem load_congr {m m' : Memory} {buffer : String} {i : Word} {w : Width}
    (h : ∀ j ∈ w.places i, m buffer j = m' buffer j) :
    m.load buffer i w = m'.load buffer i w := by
  cases w with
  | byte => exact h i (List.mem_singleton_self i)
  | word =>
      simp only [Width.places, List.forall_mem_cons] at h
      obtain ⟨h₀, h₁, -⟩ := h
      show m buffer (i + 1) ++ m buffer i
        = m' buffer (i + 1) ++ m' buffer i
      rw [h₀, h₁]
  | dword =>
      simp only [Width.places, List.forall_mem_cons] at h
      obtain ⟨h₀, h₁, h₂, h₃, -⟩ := h
      show m buffer (i + 3) ++ m buffer (i + 2) ++ m buffer (i + 1)
          ++ m buffer i
        = m' buffer (i + 3) ++ m' buffer (i + 2) ++ m' buffer (i + 1)
          ++ m' buffer i
      rw [h₀, h₁, h₂, h₃]

/-- A byte that is put somewhere changes no other place. -/
theorem put_of_not {m : Memory} {buffer buffer' : String} {i j : Word}
    (h : ¬ (buffer' = buffer ∧ j = i)) (value : Byte) :
    m.put buffer i value buffer' j = m buffer' j := by
  by_cases hbuffer : buffer' = buffer
  · rw [hbuffer, put_of_ne fun hj => h ⟨hbuffer, hj⟩]
  · simp [put, hbuffer]

/-- A value is stored to its own places. -/
theorem store_of_not_mem {m : Memory} {buffer buffer' : String}
    {i j : Word} {w : Width}
    (h : ¬ (buffer' = buffer ∧ j ∈ w.places i)) (x : BitVec w.bits) :
    m.store buffer i w x buffer' j = m buffer' j := by
  cases w with
  | byte => exact put_of_not (by simpa [Width.places] using h) _
  | word =>
      simp only [Width.places, List.mem_cons, List.not_mem_nil, or_false,
        not_and, not_or] at h
      simp only [store]
      rw [put_of_not fun hj => (h hj.1).2 hj.2,
        put_of_not fun hj => (h hj.1).1 hj.2]
  | dword =>
      simp only [Width.places, List.mem_cons, List.not_mem_nil, or_false,
        not_and, not_or] at h
      simp only [store]
      rw [put_of_not fun hj => (h hj.1).2.2.2 hj.2,
        put_of_not fun hj => (h hj.1).2.2.1 hj.2,
        put_of_not fun hj => (h hj.1).2.1 hj.2,
        put_of_not fun hj => (h hj.1).1 hj.2]

theorem put_congr {m m' : Memory} {buffer buffer' : String} {i j : Word}
    (h : m buffer' j = m' buffer' j) (value : Byte) :
    m.put buffer i value buffer' j = m'.put buffer i value buffer' j := by
  by_cases hplace : buffer' = buffer ∧ j = i
  · obtain ⟨rfl, rfl⟩ := hplace
    rw [put_same, put_same]
  · rw [put_of_not hplace, put_of_not hplace, h]

/-- A store depends on nothing that is in memory. -/
theorem store_congr {m m' : Memory} {buffer buffer' : String} {i j : Word}
    {w : Width} (h : m buffer' j = m' buffer' j) (x : BitVec w.bits) :
    m.store buffer i w x buffer' j = m'.store buffer i w x buffer' j := by
  cases w with
  | byte => exact put_congr h _
  | word => exact put_congr (put_congr h _) _
  | dword => exact put_congr (put_congr (put_congr (put_congr h _) _) _) _

end Memory

namespace Core

/-- The places of an operand that is taken at a width. -/
def places (c : Core) (w : Width) : Operand → List (String × Word)
  | .memory _ buffer index => (w.places (c.offset index)).map (buffer, ·)
  | .register _ => []
  | .immediate _ => []
  | .label _ => []

/-- The value of an operand depends on the memory at its places only. -/
theorem value_congr {c d : Core} {w : Width} {o : Operand}
    (hregisters : d.registers = c.registers)
    (h : ∀ place ∈ c.places w o,
      d.memory place.1 place.2 = c.memory place.1 place.2) :
    d.value w o = c.value w o := by
  unfold value
  cases o with
  | register part => simp only [hregisters]
  | immediate n => rfl
  | label name => rfl
  | memory size buffer index =>
      have hoffset : d.offset index = c.offset index := by
        unfold offset
        rw [hregisters]
      have hload : d.memory.load buffer (c.offset index) w
          = c.memory.load buffer (c.offset index) w :=
        Memory.load_congr fun j hj => h (buffer, j)
          (List.mem_map_of_mem hj)
      simp only [hoffset, hload]

/-- To assign an operand changes the memory at its places only. -/
theorem memory_assign {c c' : Core} {w : Width} {o : Operand}
    {x : BitVec w.bits} (h : c.assign w o x = some c') {buffer : String}
    {i : Word} (hout : (buffer, i) ∉ c.places w o) :
    c'.memory buffer i = c.memory buffer i := by
  unfold assign at h
  split at h
  · cases o with
    | register part =>
        cases h
        rfl
    | immediate n => cases h
    | label name => cases h
    | memory size buffer' index =>
        cases h
        refine Memory.store_of_not_mem (fun hmem => hout ?_) x
        rw [hmem.1]
        exact List.mem_map_of_mem hmem.2
  · cases h

end Core

-- ======================================================= instructions

/-- The width at which an instruction takes its operands: the stack takes
double words, and otherwise the first operand that states a width
decides. -/
def Instruction.width? (i : Instruction) : Option Width :=
  if i.mnemonic ∈ ["push", "pop"] then some .dword
  else i.operands.findSome? Operand.width?

theorem Operand.findSome?_width?_pair (dst src : Operand) :
    [dst, src].findSome? width? = (dst.width? <|> src.width?) := by
  cases hdst : dst.width? <;> simp [hdst]

/-- A number states no width. -/
theorem Operand.findSome?_width?_number (dst : Operand) (n : Nat) :
    [dst, .immediate n].findSome? width? = [dst].findSome? width? := by
  have hnumber : (immediate n).width? = none := rfl
  cases hdst : dst.width? <;> simp [hdst, hnumber]

/-- The places that an instruction reads or writes. -/
def Core.touched (c : Core) (i : Instruction) : List (String × Word) :=
  i.width?.toList.flatMap fun w => i.operands.flatMap (c.places w)

namespace Core

variable (c : Core) {i j : Instruction}

/-- What an instruction touches is in its mnemonic and its operands. -/
theorem touched_congr (hmnemonic : i.mnemonic = j.mnemonic)
    (hoperands : i.operands = j.operands) : c.touched i = c.touched j := by
  unfold touched Instruction.width?
  rw [hmnemonic, hoperands]

/-- An instruction without an operand in memory touches nothing. -/
theorem touched_eq_nil (h : ∀ x ∈ i.operands, ∀ w, c.places w x = []) :
    c.touched i = [] := by
  unfold touched
  rw [List.flatMap_eq_nil_iff]
  intro w _
  rw [List.flatMap_eq_nil_iff]
  exact fun x hx => h x hx w

-- ============================================================== effects

/-- The state with another memory. -/
def withMemory (c : Core) (m : Memory) : Core :=
  { c with memory := m }

/-- Two states that differ in their memories only, and not at some
places. -/
structure Alike (places : List (String × Word)) (c d : Core) : Prop where
  rest : d = c.withMemory d.memory
  memory : ∀ place ∈ places,
    d.memory place.1 place.2 = c.memory place.1 place.2

/-- From a state, an operation works on no memory but that at some
places. -/
structure WorksOn (places : List (String × Word)) (f : Core → Option Core)
    (c : Core) : Prop where
  /-- Elsewhere memory stays as it is. -/
  outside : ∀ {c'}, f c = some c' → ∀ place ∉ places,
    c'.memory place.1 place.2 = c.memory place.1 place.2
  /-- With other memory elsewhere the operation does the same. -/
  inside : ∀ {c' d}, f c = some c' → Alike places c d →
    ∃ d', f d = some d' ∧ Alike places c' d'

variable {c : Core} {places : List (String × Word)}
  {f g : Core → Option Core}

/-- In states that are alike at its places an operand has the same value.
-/
theorem Alike.value {d : Core} (h : Alike places c d) {w : Width}
    {o : Operand} (hsub : c.places w o ⊆ places) :
    d.value w o = c.value w o := by
  refine value_congr ?_ fun place hplace => h.memory place (hsub hplace)
  rw [h.rest]
  rfl

namespace WorksOn

/-- Nothing is to be shown where an operation cannot be done. -/
theorem of_eq_none (h : f c = none) : WorksOn places f c where
  outside hc := nomatch h.symm.trans hc
  inside hc := nomatch h.symm.trans hc

/-- An operation that sees no memory works on any places. -/
theorem of_blind
    (h : ∀ m, f (c.withMemory m) = (f c).map (·.withMemory m)) :
    WorksOn places f c := by
  have hmemory : ∀ {c'}, f c = some c' → c'.memory = c.memory := by
    intro c' hc
    have hsame : f c = (f c).map (·.withMemory c.memory) := h c.memory
    rw [hc] at hsame
    rw [Option.some.inj hsame]
    rfl
  constructor
  · intro c' hc place _
    rw [hmemory hc]
  · intro c' d hc hd
    refine ⟨c'.withMemory d.memory, ?_, rfl, fun place hplace => ?_⟩
    · rw [hd.rest, h, hc]
      rfl
    · rw [hmemory hc]
      exact hd.memory place hplace

/-- What comes first may change the rest of the state, as long as it sees
no memory. -/
theorem of_after {c₁ : Core} (h : WorksOn places g c₁)
    (heq : ∀ m, f (c.withMemory m) = g (c₁.withMemory m))
    (hmemory : c₁.memory = c.memory) : WorksOn places f c := by
  have hfirst : f c = g c₁ := by
    have hsame := heq c.memory
    rw [← hmemory] at hsame
    exact (congrArg f (congrArg c.withMemory hmemory)).symm.trans hsame
  constructor
  · intro c' hc place hplace
    rw [hfirst] at hc
    rw [h.outside hc place hplace, hmemory]
  · intro c' d hc hd
    rw [hfirst] at hc
    rw [hd.rest, heq]
    refine h.inside hc ⟨rfl, fun place hplace => ?_⟩
    rw [hmemory]
    exact hd.memory place hplace

end WorksOn

-- =============================================== kinds of instruction

theorem worksOn_assign {w : Width} {o : Operand}
    (hsub : c.places w o ⊆ places) (x : BitVec w.bits) :
    WorksOn places (·.assign w o x) c := by
  constructor
  · intro c' h place hplace
    exact memory_assign h fun hmem => hplace (hsub hmem)
  · intro c' d h hd
    rw [hd.rest]
    simp only [assign] at h ⊢
    split at h
    · rw [if_pos ‹_›]
      cases o with
      | register part =>
          cases h
          exact ⟨_, rfl, rfl, hd.memory⟩
      | immediate n => cases h
      | label name => cases h
      | memory size buffer index =>
          cases h
          refine ⟨_, rfl, rfl, fun place hplace => ?_⟩
          exact Memory.store_congr (hd.memory place hplace) x
    · cases h

/-- An operation on two operands works on the places of both. -/
theorem worksOn_combine {dst src : Operand}
    (hsub : ∀ w, (dst.width? <|> src.width?) = some w →
      c.places w dst ⊆ places ∧ c.places w src ⊆ places)
    (f : ∀ {n}, BitVec n → BitVec n → BitVec n) :
    WorksOn places (·.combine f dst src) c := by
  constructor
  · intro c' h place hplace
    simp only [combine, Option.bind_eq_bind, Option.bind_eq_some_iff] at h
    obtain ⟨w, hw, x, -, y, -, c₁, hassign, hc'⟩ := h
    cases hc'
    exact memory_assign hassign fun hmem => hplace ((hsub w hw).1 hmem)
  · intro c' d h hd
    simp only [combine, Option.bind_eq_bind, Option.bind_eq_some_iff]
      at h ⊢
    obtain ⟨w, hw, x, hx, y, hy, c₁, hassign, hc'⟩ := h
    cases hc'
    obtain ⟨hdst, hsrc⟩ := hsub w hw
    obtain ⟨d₁, hd₁, halike⟩ :=
      (worksOn_assign hdst (f x y)).inside hassign hd
    refine ⟨{ d₁ with equal := f x y == 0 }, ⟨w, hw, x, ?_, y, ?_, d₁, hd₁,
      rfl⟩, ?_, halike.memory⟩
    · rw [hd.value hdst, hx]
    · rw [hd.value hsrc, hy]
    · rw [halike.rest]
      rfl

theorem worksOn_compare {dst src : Operand}
    (hsub : ∀ w, (dst.width? <|> src.width?) = some w →
      c.places w dst ⊆ places ∧ c.places w src ⊆ places) :
    WorksOn places (·.compare dst src) c := by
  constructor
  · intro c' h place _
    simp only [compare, Option.bind_eq_bind, Option.bind_eq_some_iff] at h
    obtain ⟨w, -, x, -, y, -, hc'⟩ := h
    cases hc'
    rfl
  · intro c' d h hd
    simp only [compare, Option.bind_eq_bind, Option.bind_eq_some_iff]
      at h ⊢
    obtain ⟨w, hw, x, hx, y, hy, hc'⟩ := h
    cases hc'
    obtain ⟨hdst, hsrc⟩ := hsub w hw
    refine ⟨{ d with equal := x == y }, ⟨w, hw, x, ?_, y, ?_, rfl⟩, ?_,
      hd.memory⟩
    · rw [hd.value hdst, hx]
    · rw [hd.value hsrc, hy]
    · rw [hd.rest]
      rfl

theorem worksOn_copy {dst src : Operand}
    (hsub : ∀ w, (dst.width? <|> src.width?) = some w →
      c.places w dst ⊆ places ∧ c.places w src ⊆ places) :
    WorksOn places (·.copy dst src) c := by
  constructor
  · intro c' h place hplace
    simp only [copy, Option.bind_eq_bind, Option.bind_eq_some_iff] at h
    obtain ⟨w, hw, y, -, hassign⟩ := h
    exact memory_assign hassign fun hmem => hplace ((hsub w hw).1 hmem)
  · intro c' d h hd
    simp only [copy, Option.bind_eq_bind, Option.bind_eq_some_iff] at h ⊢
    obtain ⟨w, hw, y, hy, hassign⟩ := h
    obtain ⟨hdst, hsrc⟩ := hsub w hw
    obtain ⟨d', hd', halike⟩ := (worksOn_assign hdst y).inside hassign hd
    refine ⟨d', ⟨w, hw, y, ?_, hd'⟩, halike⟩
    rw [hd.value hsrc, hy]

/-- A push reads its operand; the stack is no part of memory. -/
theorem worksOn_push {src : Operand}
    (hsub : c.places .dword src ⊆ places) :
    WorksOn places (fun c => (c.value .dword src).map c.push) c := by
  constructor
  · intro c' h place _
    obtain ⟨x, -, rfl⟩ := Option.map_eq_some_iff.mp h
    rfl
  · intro c' d h hd
    obtain ⟨x, hx, rfl⟩ := Option.map_eq_some_iff.mp h
    refine ⟨d.push x, ?_, ?_, hd.memory⟩
    · show (d.value .dword src).map d.push = _
      rw [hd.value hsub, hx]
      rfl
    · rw [hd.rest]
      rfl

/-- Taking a value off the stack sees no memory. -/
theorem pop_withMemory (c : Core) (m : Memory) :
    (c.withMemory m).pop
      = c.pop.map fun top => (top.1, top.2.withMemory m) := by
  have hstack : (c.withMemory m).stack = c.stack := rfl
  rw [pop, pop, hstack]
  cases c.stack with
  | nil => rfl
  | cons x rest => rfl

/-- A pop writes its operand, whose place is taken after the top is off
the stack. -/
theorem worksOn_popInto {dst : Operand}
    (hsub : c.places .dword dst ⊆ places)
    (hindex : ∀ size buffer index, dst = .memory size buffer index →
      index.register ≠ .sp) : WorksOn places (·.popInto dst) c := by
  cases hstack : c.stack with
  | nil =>
      apply WorksOn.of_eq_none
      rw [popInto, pop, hstack]
      rfl
  | cons x rest =>
      obtain ⟨popped, hpop, -, -, hregisters, hmemory, -⟩ := pop_eq hstack
      have hplaces : popped.places .dword dst = c.places .dword dst := by
        cases dst with
        | register part => rfl
        | immediate n => rfl
        | label name => rfl
        | memory size buffer index =>
            have hne := hindex size buffer index rfl
            simp only [Core.places, offset, hregisters _ hne]
      rw [← hplaces] at hsub
      refine (worksOn_assign hsub x).of_after (fun m => ?_) hmemory
      rw [popInto, pop_withMemory, hpop]
      rfl

/-- The frame is on the stack, which is no part of memory. -/
theorem worksOn_leave : WorksOn places leave c := by
  apply WorksOn.of_blind
  intro m
  let depth := (c.registers .bp - c.registers .sp).toNat
  let dropped : Core :=
    { c.set .sp (c.registers .bp) with stack := c.stack.drop (depth / 4) }
  have hleave : ∀ m, (c.withMemory m).leave
      = if depth % 4 = 0 then (dropped.withMemory m).pop.map fun top =>
          top.2.set .bp top.1
        else none := fun _ => rfl
  have hsame := hleave c.memory
  rw [hleave m]
  show _ = c.leave.map _
  rw [show c.leave = _ from hsame]
  by_cases haligned : depth % 4 = 0
  · rw [if_pos haligned, if_pos haligned, pop_withMemory, pop_withMemory]
    simp only [Option.map_map]
    rfl
  · rw [if_neg haligned, if_neg haligned]
    rfl

theorem worksOn_popAll : WorksOn places popAll c := by
  apply WorksOn.of_blind
  intro m
  unfold popAll
  generalize Register.all.reverse = rs
  induction rs generalizing c with
  | nil => rfl
  | cons r rs ih =>
      have hfirst : (c.withMemory m).popRegister r
          = (c.popRegister r).map (·.withMemory m) := by
        rw [popRegister, popRegister, pop_withMemory]
        cases c.pop with
        | none => rfl
        | some top =>
            by_cases hr : r = .sp
            · simp [hr]
            · simp [hr, withMemory, set]
      rw [List.foldlM_cons, List.foldlM_cons, hfirst]
      cases c.popRegister r with
      | none => rfl
      | some c₁ => exact ih

theorem worksOn_call (routine : String) :
    WorksOn places (·.call routine) c := by
  apply WorksOn.of_blind
  intro m
  unfold call
  split
  · show c.stack.head?.map (c.withMemory m).write = _
    rw [Option.map_map]
    rfl
  · split
    · rfl
    · rfl

-- ======================================================= instructions

section Instructions

variable {i : Instruction} (htouched : c.touched i ⊆ places)
include htouched

/-- The places of each operand are among those that are touched. -/
theorem places_subset {w : Width} {x : Operand} (hw : i.width? = some w)
    (hx : x ∈ i.operands) : c.places w x ⊆ places := by
  intro place hplace
  apply htouched
  unfold touched
  rw [hw, Option.toList_some, List.flatMap_singleton]
  exact List.mem_flatMap_of_mem hx hplace

theorem places_pair_subset {dst src : Operand}
    (hmnemonic : i.mnemonic ∉ ["push", "pop"])
    (hoperands : i.operands = [dst, src]) {w : Width}
    (hw : (dst.width? <|> src.width?) = some w) :
    c.places w dst ⊆ places ∧ c.places w src ⊆ places := by
  have hwidth : i.width? = some w := by
    rw [Instruction.width?, if_neg hmnemonic, hoperands,
      Operand.findSome?_width?_pair, hw]
  constructor
  · exact places_subset htouched hwidth (by simp [hoperands])
  · exact places_subset htouched hwidth (by simp [hoperands])

theorem places_single_subset {dst : Operand}
    (hmnemonic : i.mnemonic ∉ ["push", "pop"])
    (hoperands : i.operands = [dst]) {n : Nat} {w : Width}
    (hw : (dst.width? <|> (Operand.immediate n).width?) = some w) :
    c.places w dst ⊆ places ∧ c.places w (.immediate n) ⊆ places := by
  have hwidth : i.width? = some w := by
    rw [Instruction.width?, if_neg hmnemonic, hoperands,
      ← Operand.findSome?_width?_number dst n,
      Operand.findSome?_width?_pair, hw]
  exact ⟨places_subset htouched hwidth (by simp [hoperands]),
    List.nil_subset _⟩

/-- An instruction works on no memory but that which it touches, unless
the stack pointer is the index of an operand. -/
theorem worksOn_effect
    (hindex : ∀ size buffer index,
      .memory size buffer index ∈ i.operands → index.register ≠ .sp) :
    WorksOn places (·.effect i) c := by
  cases heffect : c.effect i with
  | none => exact .of_eq_none heffect
  | some c' =>
      obtain ⟨mnemonic, operands, comment⟩ := i
      simp only [effect] at heffect
      split at heffect
      case h_15 => cases heffect
      all_goals simp only [effect]
      · exact worksOn_combine
          (fun _ => places_single_subset htouched (by simp) rfl) _
      · exact worksOn_combine
          (fun _ => places_single_subset htouched (by simp) rfl) _
      · exact worksOn_combine
          (fun _ => places_pair_subset htouched (by simp) rfl) _
      · exact worksOn_combine
          (fun _ => places_pair_subset htouched (by simp) rfl) _
      · exact worksOn_combine
          (fun _ => places_pair_subset htouched (by simp) rfl) _
      · exact worksOn_compare
          fun _ => places_pair_subset htouched (by simp) rfl
      · exact worksOn_copy
          fun _ => places_pair_subset htouched (by simp) rfl
      · exact worksOn_push
          (places_subset htouched rfl (List.mem_singleton_self _))
      · refine worksOn_popInto
          (places_subset htouched rfl (List.mem_singleton_self _)) ?_
        rintro size buffer index rfl
        exact hindex size buffer index (List.mem_singleton_self _)
      · exact .of_blind fun _ => rfl
      · exact worksOn_leave
      · exact .of_blind fun _ => rfl
      · exact worksOn_popAll
      · exact worksOn_call _

end Instructions

end Core

end TapeAsm.Asm
