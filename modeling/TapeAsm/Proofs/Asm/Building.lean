/-
The building of an assembly text with the checks of the builders kept.
An instruction can be refused when it is built, for its pair of
operands, and a line can be refused when it is written down, for a part
of a register that has no name or an index that is not a whole register.
Neither happens: what is built with the checks is the listing as it is
without them (`Listing.foldlM_build`), and each of its lines is written
down as it stands (`Listing.render_foldl_add`).
-/
import Mathlib.Algebra.GroupWithZero.Nat
import TapeAsm.Proofs.Asm.Loops

namespace TapeAsm.Asm

-- ================================================== nothing is refused

/-- Programs can be added with the checks or without. -/
theorem Listing.foldlM_build (l : Listing) (ps : List Program) :
    ps.foldlM build l = .ok (ps.foldl add l) := by
  induction ps generalizing l with
  | nil => rfl
  | cons p ps ih =>
      rw [List.foldlM_cons, build_eq]
      exact ih (l.add p)

-- =================================================== every line is named

/-- The lines of several programs are the lines around a program, those
of the runs, and the frames of the loops. -/
theorem forall_mem_units {o : Options} {P : Line → Prop} {loops : Nat}
    {ps : List Program}
    (hheader : ∀ l ∈ header o, P l)
    (haround : ∀ i ∈ prologue ++ epilogue, P (.instruction i))
    (hrun : ∀ op count, .run op count ∈ ps.flatMap Program.pieces →
      ∀ i ∈ runLines o op count, P (.instruction i))
    (hloop : ∀ number, loops < number →
      number ≤ loops + (ps.map Program.loops).sum →
      ∀ l ∈ loopFrame o number, P l) :
    ∀ l ∈ units o loops ps, P l := by
  induction ps generalizing loops with
  | nil => exact fun l hl => nomatch hl
  | cons p ps ih =>
      rw [List.map_cons, List.sum_cons] at hloop
      rw [List.flatMap_cons] at hrun
      have hbody : ∀ l ∈ body o loops p, P l := by
        refine forall_mem_body_of_pieces (fun op count hmem => ?_)
          fun number hlow hhigh => ?_
        · exact hrun op count (List.mem_append_left _ hmem)
        · exact hloop number hlow (by omega)
      have hrest : ∀ l ∈ units o (loops + p.loops) ps, P l := by
        refine ih (fun op count hmem => ?_) fun number hlow hhigh => ?_
        · exact hrun op count (List.mem_append_right _ hmem)
        · exact hloop number (by omega) (by omega)
      rw [List.forall_mem_append] at haround
      rw [units, unit_eq]
      simp only [List.forall_mem_append, List.forall_mem_map]
      exact ⟨⟨⟨⟨hheader, haround.1⟩, hbody⟩, haround.2⟩, hrest⟩

theorem Instruction.fault?_congr {i j : Instruction}
    (hoperands : i.operands = j.operands) : i.fault? = j.fault? := by
  rw [fault?, fault?, hoperands]

/-- The instructions of a run can be written down. -/
theorem OfRun.fault?_eq_none {op : Op} {count : Nat} {i : Instruction}
    (h : OfRun op count i) : i.fault? = none := by
  refine of_forms (P := fun i => i.fault? = none) (by decide) ?_ h
  intro n i hi
  have hoperands : ∀ j ∈ numberForms n, j.fault? = none := by
    simp [numberForms, Instruction.fault?, Operand.fault?, head, cell,
      RegisterPart.fault?, RegisterPart.isNamed]
  exact hoperands i hi

variable (o : Options)

/-- Every line can be written down. -/
theorem fault?_of_mem_units (loops : Nat) (ps : List Program) :
    ∀ l ∈ units o loops ps, l.fault? = none := by
  have hjump : ∀ text mnemonic name, (o.comment text
      { mnemonic, operands := [.label name] }).fault? = none := by
    intro text mnemonic name
    rw [Instruction.fault?_congr (comment_operands ..)]
    rfl
  refine forall_mem_units ?_ (by decide) (fun op count _ i hi => ?_)
    fun number _ _ => ?_
  · simp [header, Line.fault?]
  · obtain ⟨j, hj, -, hoperands⟩ := ofRun_of_mem_runLines hi
    show i.fault? = none
    rw [Instruction.fault?_congr hoperands, hj.fault?_eq_none]
  · exact forall_mem_loopFrame rfl (by decide) (hjump ..) (hjump ..) rfl

/-- Lines that can be written down are written down one by one. -/
theorem mapM_render {ls : List Line} (h : ∀ l ∈ ls, l.fault? = none) :
    ls.mapM Line.render = .ok (ls.map Line.text) := by
  induction ls with
  | nil => rfl
  | cons l ls ih =>
      obtain ⟨hl, hrest⟩ := List.forall_mem_cons.mp h
      have hline : l.render = .ok l.text := by
        rw [Line.render, hl]
      rw [List.mapM_cons, hline, ih hrest]
      rfl

/-- A text of several programs is written down as it stands. -/
theorem Listing.render_foldl_add (ps : List Program) :
    (ps.foldl add { options := o }).render
      = .ok (ps.foldl add { options := o }).texts := by
  have hlines : (ps.foldl add { options := o }).lines = units o 0 ps :=
    lines_foldl_add { options := o } ps
  refine mapM_render fun l hl => fault?_of_mem_units o 0 ps l ?_
  rw [← hlines]
  exact hl

end TapeAsm.Asm
