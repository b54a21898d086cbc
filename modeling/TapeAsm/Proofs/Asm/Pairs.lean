/-
The pairs of operands that the builders refuse. Five builders take a
destination and a source, and all but the shorter encodings go through
one check of the pair. A copy gets its shorter encoding for a register
only, so nothing is lost there; counting does without the check, and so
a one is added to a destination that nothing can be added to. That apart,
a builder refuses exactly the pairs that no instruction takes
(`PairBuilder.screened_build`).
-/
import TapeAsm.Proofs.Asm.Shortenings

namespace TapeAsm.Asm

-- ============================================================ misfits

/-- An operand that an instruction can leave a value in. -/
inductive Operand.IsPlace : Operand → Prop where
  | register (part : RegisterPart) : IsPlace (.register part)
  | memory (size : Option OperandSize) (buffer : String)
    (index : RegisterPart) : IsPlace (.memory size buffer index)

/-- A destination and a source that no instruction takes. -/
inductive Misfit : Operand → Operand → Prop where
  | intoNumber (n : Nat) (src : Operand) : Misfit (.immediate n) src
  | intoLabel (name : String) (src : Operand) : Misfit (.label name) src
  | fromLabel (dst : Operand) (name : String) : Misfit dst (.label name)
  | bothMemory (size size' : Option OperandSize) (buffer buffer' : String)
    (index index' : RegisterPart) :
    Misfit (.memory size buffer index) (.memory size' buffer' index')

/-- The fault that a misfit is reported as, under a mnemonic. -/
def Misfit.fault (mnemonic : String) (dst src : Operand) : Fault :=
  match dst, src with
  | .memory .., .memory .. => .twoMemoryOperands mnemonic
  | _, _ => .invalidPair mnemonic dst src

variable {dst src : Operand}

/-- Whatever is no place is a misfit as a destination. -/
theorem Operand.isPlace_of_not_misfit (h : ¬ Misfit dst src) :
    dst.IsPlace := by
  cases dst with
  | register part => exact .register part
  | immediate n => exact absurd (.intoNumber n src) h
  | memory size buffer index => exact .memory size buffer index
  | label name => exact absurd (.intoLabel name src) h

namespace Build

/-- The check refuses a misfit. -/
theorem pair_of_misfit (h : Misfit dst src) (mnemonic : String) :
    pair mnemonic dst src = .error (Misfit.fault mnemonic dst src) := by
  cases h with
  | intoNumber n src => rfl
  | intoLabel name src => rfl
  | fromLabel dst name => cases dst <;> rfl
  | bothMemory => rfl

/-- Any other pair makes the instruction that is named. -/
theorem pair_of_not_misfit (h : ¬ Misfit dst src) (mnemonic : String) :
    pair mnemonic dst src = .ok { mnemonic, operands := [dst, src] } := by
  cases src with
  | label name => exact absurd (.fromLabel dst name) h
  | register part =>
      cases Operand.isPlace_of_not_misfit h <;> rfl
  | immediate n =>
      cases Operand.isPlace_of_not_misfit h <;> rfl
  | memory size buffer index =>
      cases Operand.isPlace_of_not_misfit h with
      | register part => rfl
      | memory => exact absurd (.bothMemory ..) h

end Build

-- =========================================================== builders

/-- The builders of an instruction with a destination and a source. -/
inductive PairBuilder where
  | add
  | sub
  | xor
  | cmp
  | mov

namespace PairBuilder

def mnemonic : PairBuilder → String
  | add => "add"
  | sub => "sub"
  | xor => "xor"
  | cmp => "cmp"
  | mov => "mov"

/-- What the builder builds. -/
def build : PairBuilder → Operand → Operand → Except Fault Instruction
  | add => Build.add
  | sub => Build.sub
  | xor => Build.xor
  | cmp => Build.cmp
  | mov => Build.mov

/-- The builder counts by one, which has a source of its own and no
check. -/
def Counts (b : PairBuilder) (src : Operand) : Prop :=
  (b = add ∨ b = sub) ∧ src = .immediate 1

/-- What a builder makes of a pair of operands. -/
structure Screened (b : PairBuilder) (dst src : Operand) : Prop where
  /-- It refuses a pair exactly when that is a misfit, counting apart. -/
  refused_iff : (∃ fault, b.build dst src = .error fault)
    ↔ Misfit dst src ∧ ¬ b.Counts src
  /-- The fault names the builder and the pair. -/
  fault : ∀ fault, b.build dst src = .error fault →
    fault = Misfit.fault b.mnemonic dst src
  /-- What it builds has the destination as its first operand. -/
  first : ∀ i, b.build dst src = .ok i → i.operands.head? = some dst
  /-- That is a place, counting apart. -/
  place : ∀ i, b.build dst src = .ok i → ¬ b.Counts src → dst.IsPlace
  /-- To count, it takes any destination. -/
  counted : b.Counts src →
    ∃ i, b.build dst src = .ok i ∧ i.operands = [dst]

variable {b : PairBuilder}

/-- Where one is counted, nothing is checked. -/
theorem build_of_counts (h : b.Counts src) (dst : Operand) :
    ∃ i, b.build dst src = .ok i ∧ i.operands = [dst] := by
  obtain ⟨rfl | rfl, rfl⟩ := h
  · exact ⟨Build.inc dst, rfl, rfl⟩
  · exact ⟨Build.dec dst, rfl, rfl⟩

/-- Elsewhere a misfit does not get past the check. -/
theorem build_of_misfit (hcounts : ¬ b.Counts src) (h : Misfit dst src) :
    b.build dst src = .error (Misfit.fault b.mnemonic dst src) := by
  have hpair := Build.pair_of_misfit h
  cases b with
  | add =>
      have happlies : ¬ Shortening.add.Applies dst src :=
        fun hone => hcounts ⟨.inl rfl, hone⟩
      exact (Shortening.build_of_not_applies happlies).trans (hpair "add")
  | sub =>
      have happlies : ¬ Shortening.sub.Applies dst src :=
        fun hone => hcounts ⟨.inr rfl, hone⟩
      exact (Shortening.build_of_not_applies happlies).trans (hpair "sub")
  | xor => exact hpair "xor"
  | cmp => exact hpair "cmp"
  | mov =>
      -- a register that is cleared is no misfit
      have happlies : ¬ Shortening.mov.Applies dst src := by
        rintro ⟨rfl, part, rfl⟩
        cases h
      exact (Shortening.build_of_not_applies happlies).trans (hpair "mov")

/-- A pair that fits is built, with its destination in front. -/
theorem build_of_not_misfit (h : ¬ Misfit dst src) (b : PairBuilder) :
    ∃ i, b.build dst src = .ok i ∧ i.operands.head? = some dst := by
  have hpair := Build.pair_of_not_misfit h
  have hshortening : ∀ s : Shortening,
      ∃ i, s.build dst src = .ok i ∧ i.operands.head? = some dst := by
    intro s
    by_cases happlies : s.Applies dst src
    · refine ⟨_, Shortening.build_of_applies happlies, ?_⟩
      cases s <;> rfl
    · exact ⟨_, (Shortening.build_of_not_applies happlies).trans (hpair _),
        rfl⟩
  cases b with
  | add => exact hshortening .add
  | sub => exact hshortening .sub
  | xor => exact ⟨_, hpair "xor", rfl⟩
  | cmp => exact ⟨_, hpair "cmp", rfl⟩
  | mov => exact hshortening .mov

/-- A builder refuses the pairs that no instruction takes, and those only;
the one way around is to count. -/
theorem screened_build (b : PairBuilder) (dst src : Operand) :
    b.Screened dst src := by
  by_cases hcounts : b.Counts src
  · obtain ⟨i, hi, hoperands⟩ := build_of_counts hcounts dst
    refine ⟨?_, ?_, ?_, ?_, fun _ => ⟨i, hi, hoperands⟩⟩
    · simp [hi, hcounts]
    · simp [hi]
    · rintro j hj
      obtain rfl := Except.ok.inj (hi.symm.trans hj)
      rw [hoperands, List.head?_cons]
    · exact fun _ _ hnot => absurd hcounts hnot
  · by_cases h : Misfit dst src
    · have herror := build_of_misfit hcounts h
      refine ⟨?_, ?_, ?_, ?_, fun hyes => absurd hyes hcounts⟩
      · simp [herror, h, hcounts]
      · intro fault hfault
        exact (Except.error.inj (herror.symm.trans hfault)).symm
      · simp [herror]
      · simp [herror]
    · obtain ⟨i, hi, hhead⟩ := build_of_not_misfit h b
      refine ⟨?_, ?_, ?_, ?_, fun hyes => absurd hyes hcounts⟩
      · simp [hi, h]
      · simp [hi]
      · rintro j hj
        obtain rfl := Except.ok.inj (hi.symm.trans hj)
        exact hhead
      · exact fun _ _ _ => Operand.isPlace_of_not_misfit h

/-- A number is counted up, though nothing else can be added to it. -/
theorem screened_build_number :
    Misfit (.immediate 5) (.immediate 1)
      ∧ (∃ i, add.build (.immediate 5) (.immediate 1) = .ok i
        ∧ i.operands = [.immediate 5])
      ∧ ∃ fault, add.build (.immediate 5) (.immediate 2) = .error fault := by
  refine ⟨.intoNumber 5 _, ?_, ?_⟩
  · exact (screened_build add _ _).counted ⟨.inl rfl, rfl⟩
  · refine (screened_build add _ _).refused_iff.mpr ⟨.intoNumber 5 _, ?_⟩
    rintro ⟨-, htwo⟩
    cases htwo

end PairBuilder

end TapeAsm.Asm
