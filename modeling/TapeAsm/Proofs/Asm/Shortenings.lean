/-
The shorter encodings that the builders pick. Three builders do not
always build what they are named for: one is added or subtracted by
counting, and a register is cleared by `xor` with itself. What is built
does what the instruction as it is named does, at every width of the
operands and in every state, flag apart
(`Shortening.keeps_effect`).

The machine takes the operands at the width that one of them states,
which hides that the rules hold at any width. So it is said first what
an instruction does at a given width (`Core.effectAt`), with counting as
an operation of its own, and that the machine does that at the width it
finds (`Core.effect_eq_effectAt`).

The rest says what is left alone. A destination in a register has
neighbours in the same register and one in memory has neighbours in its
buffer, so a state in which an operand has become a value
(`Core.Becomes`) is told bit by bit and place by place. The value that
is read back is the one thing that needs the places of a value to be
different ones (`Memory.load_store`).
-/
import TapeAsm.Proofs.Asm.Places

namespace TapeAsm.Asm

-- ======================================================= parts of words

/-- The lowest bit of a part of a register. -/
def Access.low : Access → Nat
  | lowByte => 0
  | highByte => 8
  | word => 0
  | dword => 0

/-- The upper part of a value stays when the lower is replaced. -/
theorem getLsbD_replaceLow (high width : Nat) {k : Nat}
    (value : BitVec (high + width)) (part : BitVec width)
    (h : ¬ k < width) :
    (value.extractLsb' width high ++ part).getLsbD k
      = value.getLsbD k := by
  have hend : high + width ≤ k → value.getLsbD k = false :=
    BitVec.getLsbD_of_ge value k
  simp only [BitVec.getLsbD_append, BitVec.getLsbD_extractLsb']
  grind

/-- What is above and below a part stays when the part is replaced. -/
theorem getLsbD_replaceMiddle (high width low : Nat) {k : Nat}
    (value : BitVec (high + width + low)) (part : BitVec width)
    (h : ¬ (low ≤ k ∧ k < low + width)) :
    (value.extractLsb' (low + width) high ++ part
      ++ value.extractLsb' 0 low).getLsbD k = value.getLsbD k := by
  have hend : high + width + low ≤ k → value.getLsbD k = false :=
    BitVec.getLsbD_of_ge value k
  simp only [BitVec.getLsbD_append, BitVec.getLsbD_extractLsb']
  grind

/-- A part of a register that is set leaves the other bits alone. -/
theorem Access.getLsbD_set (access : Access) (value : Word)
    (part : BitVec access.width.bits) {k : Nat}
    (h : ¬ (access.low ≤ k ∧ k < access.low + access.width.bits)) :
    (access.set value part).getLsbD k = value.getLsbD k := by
  cases access with
  | lowByte =>
      have hout : ¬ k < 8 := by simpa [low, width, Width.bits] using h
      exact getLsbD_replaceLow 24 8 value part hout
  | highByte => exact getLsbD_replaceMiddle 16 8 8 value part h
  | word =>
      have hout : ¬ k < 16 := by simpa [low, width, Width.bits] using h
      exact getLsbD_replaceLow 16 16 value part hout
  | dword =>
      have hout : 32 ≤ k := by simpa [low, width, Width.bits] using h
      exact (BitVec.getLsbD_of_ge part k hout).trans
        (BitVec.getLsbD_of_ge value k hout).symm

-- ============================================================= memory

/-- A double word is put together from its bytes. -/
theorem append_bytes (x : BitVec 32) :
    x.extractLsb' 24 8 ++ x.extractLsb' 16 8 ++ x.extractLsb' 8 8
      ++ x.extractLsb' 0 8 = x := by
  have hupper : x.extractLsb' 24 8 ++ x.extractLsb' 16 8
      = x.extractLsb' 16 16 :=
    BitVec.extractLsb'_append_extractLsb'_eq_extractLsb' rfl
  have hmiddle : x.extractLsb' 16 16 ++ x.extractLsb' 8 8
      = x.extractLsb' 8 24 :=
    BitVec.extractLsb'_append_extractLsb'_eq_extractLsb' rfl
  rw [hupper, hmiddle]
  exact @BitVec.extractLsb'_append_extractLsb' 24 8 x

/-- A value that has been stored is loaded again. -/
theorem Memory.load_store (m : Memory) (buffer : String) (i : Word)
    {w : Width} (x : BitVec w.bits) :
    (m.store buffer i w x).load buffer i w = x := by
  cases w with
  | byte => exact put_same m buffer i x
  | word =>
      have hne : i ≠ i + 1 := by bv_omega
      simp only [store, load, put_same, put_of_ne hne]
      exact @BitVec.extractLsb'_append_extractLsb' 8 8 x
  | dword =>
      -- the places go around at the end of the words, and meet nowhere
      have h₁ : i ≠ i + 1 := by bv_omega
      have h₂ : i ≠ i + 2 ∧ i + 1 ≠ i + 2 := by constructor <;> bv_omega
      have h₃ : i ≠ i + 3 ∧ i + 1 ≠ i + 3 ∧ i + 2 ≠ i + 3 := by
        refine ⟨?_, ?_, ?_⟩ <;> bv_omega
      simp only [store, load, put_same, put_of_ne h₁, put_of_ne h₂.1,
        put_of_ne h₂.2, put_of_ne h₃.1, put_of_ne h₃.2.1,
        put_of_ne h₃.2.2]
      exact append_bytes x

-- =========================================================== operands

/-- A bit of a register is one of those that an operand stands for. -/
def Operand.HasBit (o : Operand) (r : Register) (k : Nat) : Prop :=
  ∃ access, o = .register ⟨r, access⟩ ∧ access.low ≤ k
    ∧ k < access.low + access.width.bits

namespace Core

/-- The state with the flag forgotten. -/
def unflagged (c : Core) : Core := { c with equal := false }

/-- A state is another one in which an operand, taken at a width, has
become a value. What the flag is in the two is left open. -/
structure Becomes (c : Core) (w : Width) (o : Operand)
    (x : BitVec w.bits) (c' : Core) : Prop where
  /-- The value is what the operand now has. -/
  value : c'.value w o = some x
  /-- The bits of registers that are not the operand's are kept. -/
  registers : ∀ r k, ¬ o.HasBit r k →
    (c'.registers r).getLsbD k = (c.registers r).getLsbD k
  /-- So is the memory outside of its places. -/
  memory : ∀ place ∉ c.places w o,
    c'.memory place.1 place.2 = c.memory place.1 place.2
  stack : c'.stack = c.stack
  console : c'.console = c.console
  leftovers : c'.leftovers = c.leftovers

variable {c c' : Core} {w : Width} {dst src : Operand}

/-- Whoever forgets the flag finds the same. -/
theorem Becomes.of_unflagged {c₁ : Core} {x : BitVec w.bits}
    (h : c.Becomes w dst x c') (heq : c₁.unflagged = c'.unflagged) :
    c.Becomes w dst x c₁ := by
  have hsame : ∀ c : Core, c = { c.unflagged with equal := c.equal } :=
    fun _ => rfl
  rw [hsame c₁, heq]
  exact ⟨h.value, h.registers, h.memory, h.stack, h.console, h.leftovers⟩

/-- A register or a place in memory that is assigned a value becomes
it. -/
theorem becomes_of_assign {x : BitVec w.bits}
    (h : c.assign w dst x = some c') : c.Becomes w dst x c' := by
  have hmemory : ∀ place ∉ c.places w dst,
      c'.memory place.1 place.2 = c.memory place.1 place.2 :=
    fun place hout => memory_assign h hout
  unfold assign at h
  split at h
  next hfits =>
    cases dst with
    | register part =>
        obtain ⟨r, access⟩ := part
        obtain rfl : access.width = w := by
          simpa [Operand.fits, Operand.width?] using hfits
        cases h
        refine ⟨?_, ?_, hmemory, rfl, rfl, rfl⟩
        · rw [value, if_pos hfits]
          simp only [registers_set_same, Access.get_set, BitVec.setWidth_eq]
        · intro r' k hbit
          by_cases hr : r' = r
          · rw [hr, registers_set_same]
            exact access.getLsbD_set _ _ fun hk =>
              hbit ⟨access, by rw [hr], hk⟩
          · rw [registers_set_of_ne hr]
    | immediate n => cases h
    | memory size buffer index =>
        cases h
        refine ⟨?_, fun _ _ _ => rfl, hmemory, rfl, rfl, rfl⟩
        rw [value, if_pos hfits]
        exact congrArg some (Memory.load_store ..)
    | label name => cases h
  next => cases h

-- =================================================== effects at a width

/-- The state after a computation has come to a value that its
destination becomes. The flag tells whether it is zero. -/
def result (c : Core) (w : Width) (dst : Operand) (x : BitVec w.bits) :
    Option Core :=
  (c.assign w dst x).map fun c' => { c' with equal := x == 0 }

/-- The state after a destination has been combined with a source. -/
def combineAt (c : Core) (w : Width)
    (f : ∀ {n}, BitVec n → BitVec n → BitVec n) (dst src : Operand) :
    Option Core :=
  (c.value w dst).bind fun x =>
    (c.value w src).bind fun y => c.result w dst (f x y)

/-- What an instruction with a destination does, its operands taken at a
width. -/
def effectAt (c : Core) (w : Width) (i : Instruction) : Option Core :=
  match i.mnemonic, i.operands with
  | "inc", [dst] => (c.value w dst).bind fun x => c.result w dst (x + 1)
  | "dec", [dst] => (c.value w dst).bind fun x => c.result w dst (x - 1)
  | "add", [dst, src] => c.combineAt w (· + ·) dst src
  | "sub", [dst, src] => c.combineAt w (· - ·) dst src
  | "xor", [dst, src] => c.combineAt w (· ^^^ ·) dst src
  | "mov", [dst, src] => (c.value w src).bind fun y => c.assign w dst y
  | _, _ => none

section

variable (c : Core) (f : ∀ {n}, BitVec n → BitVec n → BitVec n)
  (dst src : Operand)

theorem combine_eq_bind :
    c.combine f dst src
      = ([dst, src].findSome? Operand.width?).bind
        (c.combineAt · f dst src) := by
  rw [Operand.findSome?_width?_pair]
  unfold combine combineAt result
  simp only [Option.map_eq_bind]
  rfl

theorem combine_one_eq_bind :
    c.combine f dst (.immediate 1)
      = ([dst].findSome? Operand.width?).bind fun w =>
        (c.value w dst).bind fun x => c.result w dst (f x 1) := by
  rw [combine_eq_bind, Operand.findSome?_width?_number]
  rfl

theorem copy_eq_bind :
    c.copy dst src
      = ([dst, src].findSome? Operand.width?).bind fun w =>
        (c.value w src).bind fun y => c.assign w dst y := by
  rw [Operand.findSome?_width?_pair]
  rfl

end

/-- The instructions that `effectAt` speaks of are run at the first width
that one of their operands states. -/
theorem effect_eq_effectAt (c : Core) {i : Instruction}
    (h : i.mnemonic ∈ ["inc", "dec", "add", "sub", "xor", "mov"]) :
    c.effect i = i.width?.bind (c.effectAt · i) := by
  obtain ⟨mnemonic, operands, comment⟩ := i
  have hnone (w? : Option Width) :
      (none : Option Core) = w?.bind fun _ => none := by
    cases w? <;> rfl
  simp only [List.mem_cons, List.not_mem_nil, or_false] at h
  rcases h with rfl | rfl | rfl | rfl | rfl | rfl
  · match operands with
    | [dst] => exact c.combine_one_eq_bind (· + ·) dst
    | [] | _ :: _ :: _ => exact hnone _
  · match operands with
    | [dst] => exact c.combine_one_eq_bind (· - ·) dst
    | [] | _ :: _ :: _ => exact hnone _
  · match operands with
    | [dst, src] => exact c.combine_eq_bind (· + ·) dst src
    | [] | [_] | _ :: _ :: _ :: _ => exact hnone _
  · match operands with
    | [dst, src] => exact c.combine_eq_bind (· - ·) dst src
    | [] | [_] | _ :: _ :: _ :: _ => exact hnone _
  · match operands with
    | [dst, src] => exact c.combine_eq_bind (· ^^^ ·) dst src
    | [] | [_] | _ :: _ :: _ :: _ => exact hnone _
  · match operands with
    | [dst, src] => exact c.copy_eq_bind dst src
    | [] | [_] | _ :: _ :: _ :: _ => exact hnone _

-- ====================================================== accepted pairs

/-- Anything but a label has a value at a width that it fits. -/
theorem exists_value {o : Operand} (hfits : o.fits w)
    (h : ∀ name, o ≠ .label name) (c : Core) :
    ∃ x, c.value w o = some x := by
  unfold value
  rw [if_pos hfits]
  cases o with
  | register part => exact ⟨_, rfl⟩
  | immediate n => exact ⟨_, rfl⟩
  | memory size buffer index => exact ⟨_, rfl⟩
  | label name => exact absurd rfl (h name)

/-- A register or a place in memory becomes any value of a width that it
fits. -/
theorem exists_assign {o : Operand} (hfits : o.fits w)
    (hlabel : ∀ name, o ≠ .label name) (hnumber : ∀ n, o ≠ .immediate n)
    (c : Core) (x : BitVec w.bits) :
    ∃ c', c.assign w o x = some c' ∧ c.Becomes w o x c' := by
  have hdone : ∃ c', c.assign w o x = some c' := by
    unfold assign
    rw [if_pos hfits]
    cases o with
    | register part => exact ⟨_, rfl⟩
    | immediate n => exact absurd rfl (hnumber n)
    | memory size buffer index => exact ⟨_, rfl⟩
    | label name => exact absurd rfl (hlabel name)
  obtain ⟨c', hassign⟩ := hdone
  exact ⟨c', hassign, becomes_of_assign hassign⟩

end Core

/-- A pair that is accepted has a register or memory for its destination
and no label for its source. -/
theorem Build.of_pair_eq_ok {mnemonic : String} {dst src : Operand}
    {i : Instruction} (h : pair mnemonic dst src = .ok i) :
    (∀ name, dst ≠ .label name) ∧ (∀ n, dst ≠ .immediate n)
      ∧ ∀ name, src ≠ .label name := by
  refine ⟨?_, ?_, ?_⟩
  · rintro name rfl
    simp [pair] at h
  · rintro n rfl
    simp [pair] at h
  · rintro name rfl
    cases dst <;> simp [pair] at h

-- =========================================================== the rules

/-- The builders that pick a shorter encoding. -/
inductive Shortening where
  | add
  | sub
  | mov

namespace Shortening

def mnemonic : Shortening → String
  | add => "add"
  | sub => "sub"
  | mov => "mov"

/-- The instruction that the builder is named for. -/
def plain (s : Shortening) (dst src : Operand) : Instruction :=
  { mnemonic := s.mnemonic, operands := [dst, src] }

/-- What the builder builds. -/
def build : Shortening → Operand → Operand → Except Fault Instruction
  | add => Build.add
  | sub => Build.sub
  | mov => Build.mov

/-- The value that the destination is to become. -/
def compute (s : Shortening) {n : Nat} (x y : BitVec n) : BitVec n :=
  match s with
  | add => x + y
  | sub => x - y
  | mov => y

/-- The operands for which there is a shorter encoding. -/
def Applies : Shortening → Operand → Operand → Prop
  | add, _, src => src = .immediate 1
  | sub, _, src => src = .immediate 1
  | mov, dst, src => src = .immediate 0 ∧ ∃ part, dst = .register part

/-- The shorter encoding. -/
def shorter (dst : Operand) : Shortening → Instruction
  | add => Build.inc dst
  | sub => Build.dec dst
  | mov => { mnemonic := "xor", operands := [dst, dst] }

/-- How an instruction stands to the plain one that it has been built
for. -/
structure Faithful (s : Shortening) (dst src : Operand)
    (built : Instruction) : Prop where
  /-- It is the plain one, unless the rule applies. -/
  same : built = s.plain dst src ↔ ¬ s.Applies dst src
  /-- It does the same at every width and in every state, flag apart. -/
  effectAt : ∀ (c : Core) (w : Width),
    (c.effectAt w built).map Core.unflagged
      = (c.effectAt w (s.plain dst src)).map Core.unflagged
  /-- So it does at the width that the machine finds. -/
  effect : ∀ c : Core, (c.effect built).map Core.unflagged
    = (c.effect (s.plain dst src)).map Core.unflagged
  /-- At a width that both operands fit it is executed: the destination
  becomes what is computed, and nothing else changes. -/
  becomes : ∀ (c : Core) (w : Width), dst.fits w → src.fits w →
    ∃ x y c', c.value w dst = some x ∧ c.value w src = some y
      ∧ c.effectAt w built = some c'
      ∧ c.Becomes w dst (s.compute x y) c'

variable {s : Shortening} {dst src : Operand}

theorem build_of_applies (h : s.Applies dst src) :
    s.build dst src = .ok (s.shorter dst) := by
  cases s with
  | add => exact if_pos h
  | sub => exact if_pos h
  | mov =>
      obtain ⟨rfl, part, rfl⟩ := h
      rfl

theorem build_of_not_applies (h : ¬ s.Applies dst src) :
    s.build dst src = Build.pair s.mnemonic dst src := by
  cases s with
  | add => exact if_neg h
  | sub => exact if_neg h
  | mov =>
      cases dst with
      | register part =>
          have hsrc : src.isZero = false := by
            unfold Operand.isZero
            split
            · exact absurd ⟨rfl, part, rfl⟩ h
            · rfl
          show Build.mov (.register part) src = _
          simp only [Build.mov, hsrc]
          rfl
      | immediate n => rfl
      | memory size buffer index => rfl
      | label name => rfl

theorem shorter_ne_plain : s.shorter dst ≠ s.plain dst src := by
  intro h
  have hmnemonic := congrArg Instruction.mnemonic h
  cases s <;>
    simp [shorter, plain, mnemonic, Build.inc, Build.dec] at hmnemonic

-- ================================================ what the rules keep

/-- Counting is a computation with the number one, and what is combined
with itself by `xor` is zero. A copy leaves the flag as it is, so there
the flag is told apart. -/
theorem effectAt_shorter (h : s.Applies dst src) (c : Core) (w : Width) :
    (c.effectAt w (s.shorter dst)).map Core.unflagged
      = (c.effectAt w (s.plain dst src)).map Core.unflagged := by
  cases s with
  | add =>
      obtain rfl : src = .immediate 1 := h
      rfl
  | sub =>
      obtain rfl : src = .immediate 1 := h
      rfl
  | mov =>
      obtain ⟨rfl, part, rfl⟩ := h
      show (c.combineAt w (· ^^^ ·) (.register part)
          (.register part)).map Core.unflagged
        = (c.assign w (.register part) 0).map Core.unflagged
      unfold Core.combineAt
      by_cases hfits : (Operand.register part).fits w
      · obtain ⟨x, hx⟩ := Core.exists_value hfits (by simp) c
        simp only [hx, Option.bind_some, BitVec.xor_self, Core.result,
          Option.map_map]
        rfl
      · simp [Core.value, Core.assign, hfits]

/-- The number that a shorter encoding leaves out decides no width. -/
theorem width?_shorter (h : s.Applies dst src) :
    (s.shorter dst).width? = (s.plain dst src).width? := by
  cases s with
  | add =>
      obtain rfl : src = .immediate 1 := h
      exact (Operand.findSome?_width?_number dst 1).symm
  | sub =>
      obtain rfl : src = .immediate 1 := h
      exact (Operand.findSome?_width?_number dst 1).symm
  | mov =>
      obtain ⟨rfl, part, rfl⟩ := h
      rfl

/-- The machine does the same where it does the same at every width. -/
theorem effect_shorter (h : s.Applies dst src) (c : Core) :
    (c.effect (s.shorter dst)).map Core.unflagged
      = (c.effect (s.plain dst src)).map Core.unflagged := by
  have hshorter : (s.shorter dst).mnemonic
      ∈ ["inc", "dec", "add", "sub", "xor", "mov"] := by
    cases s <;> simp [shorter, Build.inc, Build.dec]
  have hplain : (s.plain dst src).mnemonic
      ∈ ["inc", "dec", "add", "sub", "xor", "mov"] := by
    cases s <;> simp [plain, mnemonic]
  rw [c.effect_eq_effectAt hshorter, c.effect_eq_effectAt hplain,
    width?_shorter h, Option.map_bind, Option.map_bind]
  exact Option.bind_congr fun w _ => effectAt_shorter h c w

/-- The plain instruction does what its name says. -/
theorem becomes_plain {w : Width} (c : Core) (hdst : dst.fits w)
    (hsrc : src.fits w)
    (h : Build.pair s.mnemonic dst src = .ok (s.plain dst src)) :
    ∃ x y c', c.value w dst = some x ∧ c.value w src = some y
      ∧ c.effectAt w (s.plain dst src) = some c'
      ∧ c.Becomes w dst (s.compute x y) c' := by
  obtain ⟨hlabel, hnumber, hlabel'⟩ := Build.of_pair_eq_ok h
  obtain ⟨x, hx⟩ := Core.exists_value hdst hlabel c
  obtain ⟨y, hy⟩ := Core.exists_value hsrc hlabel' c
  obtain ⟨c', hassign, hbecomes⟩ :=
    Core.exists_assign hdst hlabel hnumber c (s.compute x y)
  have hresult : c.result w dst (s.compute x y)
      = some { c' with equal := s.compute x y == 0 } := by
    rw [Core.result, hassign]
    rfl
  have hcombine (f : ∀ {n}, BitVec n → BitVec n → BitVec n) :
      c.combineAt w f dst src = c.result w dst (f x y) := by
    rw [Core.combineAt, hx, Option.bind_some, hy, Option.bind_some]
  cases s with
  | add =>
      exact ⟨x, y, _, hx, hy, (hcombine (· + ·)).trans hresult,
        hbecomes.of_unflagged rfl⟩
  | sub =>
      exact ⟨x, y, _, hx, hy, (hcombine (· - ·)).trans hresult,
        hbecomes.of_unflagged rfl⟩
  | mov =>
      refine ⟨x, y, c', hx, hy, ?_, hbecomes⟩
      show (c.value w src).bind _ = _
      rw [hy]
      exact hassign

/-- Whatever pair is accepted, the builder builds an instruction that
does what the plain one does, the flag apart, and it is the plain one
unless the rule applies. -/
theorem keeps_effect (s : Shortening) {dst src : Operand}
    (h : Build.pair s.mnemonic dst src = .ok (s.plain dst src)) :
    ∃ built, s.build dst src = .ok built ∧ s.Faithful dst src built := by
  by_cases happlies : s.Applies dst src
  · refine ⟨s.shorter dst, build_of_applies happlies, ?_,
      effectAt_shorter happlies, effect_shorter happlies, ?_⟩
    · simp [shorter_ne_plain, happlies]
    · intro c w hdst hsrc
      obtain ⟨x, y, c', hx, hy, hplain, hbecomes⟩ :=
        becomes_plain c hdst hsrc h
      have hsame := effectAt_shorter happlies c w
      rw [hplain, Option.map_some, Option.map_eq_some_iff] at hsame
      obtain ⟨c₁, hshorter, heq⟩ := hsame
      exact ⟨x, y, c₁, hx, hy, hshorter, hbecomes.of_unflagged heq⟩
  · refine ⟨s.plain dst src, (build_of_not_applies happlies).trans h, ?_,
      fun _ _ => rfl, fun _ => rfl, ?_⟩
    · simp [happlies]
    · exact fun c w hdst hsrc => becomes_plain c hdst hsrc h

/-- The second byte of `eax` is cleared by `xor`, between its
neighbours. -/
theorem keeps_effect_clear_ah :
    Build.pair mov.mnemonic (.register ⟨.a, .highByte⟩) (.immediate 0)
        = .ok (mov.plain (.register ⟨.a, .highByte⟩) (.immediate 0))
      ∧ ∃ built,
        mov.build (.register ⟨.a, .highByte⟩) (.immediate 0) = .ok built
          ∧ mov.Faithful (.register ⟨.a, .highByte⟩) (.immediate 0)
            built :=
  ⟨rfl, mov.keeps_effect rfl⟩

end Shortening

end TapeAsm.Asm
