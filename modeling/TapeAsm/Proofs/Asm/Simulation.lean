/-
A compiled program does what its tree does (`Listing.agrees_add`): the
same outputs and inputs in the same order, and a return if the run of
the tree comes to an end. While the tree has something left to do, the
machine stands where that is placed, in a mirror image of its state
(`Follows`); a step of the tree is the code of a run, or the test of a
loop, behind a jump back if the body of a loop is at its end.

All of it is under the condition that the head is on the tape whenever a
cell is used. The condition is about the whole run to come, so it is
carried along with the rest.
-/
import TapeAsm.Proofs.Asm.Mirror
import TapeAsm.Proofs.Asm.Placement

namespace TapeAsm.Asm

open StateTransition Relation

-- ========================================================== following

section Following

variable (o : Options) (code : List Line) (entry : Core)

/-- The machine stands where the rest of the task is placed, in a mirror
image of its state; or nothing is left, and it has come to its
return. The stack frame is that of the state `entry`. -/
inductive Follows : Task → Machine → Prop where
  | running {t : Task} {line : Nat} {c : Core}
    (hplaced : Placed o code line t.rest)
    (hmirrors : Mirrors o.tapeSize entry.framed t.state c)
    (hpositive : t.rest.Positive)
    (hstays : Program.StaysOn o.tapeSize t) : Follows t ⟨line, c⟩
  | returned {s : State} {m : Machine}
    (hconsole : s.console = m.core.console)
    (hreturns : m.Returns code) : Follows ⟨.done, s⟩ m

/-- The instructions of the first step of a program, jumps apart. -/
def firstCode : Program → List Instruction
  | .done => []
  | .run op count _ => runLines o op count
  | .loop _ _ => loopTest

/-- What the machine comes by while it follows the first step of a task,
with the stack of the state `f` below: the instructions of that step, one
after the other from a mirror image on, and lines that only lead on to
others. -/
inductive Passes (f : Core) (t : Task) (m : Machine) : Prop where
  | instruction {i : Instruction} {done todo : List Instruction} {c : Core}
    (hline : code[m.line]? = some (.instruction i))
    (hsplit : firstCode o t.rest = done ++ i :: todo)
    (hmirrors : Mirrors o.tapeSize f t.state c)
    (hdone : c.effects done = some m.core)
  | label {name : String} (hline : code[m.line]? = some (.label name))
  | jump {i : Instruction} {name : String}
    (hline : code[m.line]? = some (.instruction i))
    (hoperands : i.operands = [.label name])

variable {o code entry}

/-- The step of a loop, from the top of its code. -/
private theorem along_loopStep {holds : Machine → Prop}
    (hlabels : (labels code).Nodup) (hsize : o.tapeSize ≤ 2 ^ 32)
    {top number : Nat} {inner next : Program} {s : State} {c : Core}
    {t' : Task} (hloop : At code top (loopCode o number inner))
    (hnext : Placed o code (top + (loopCode o number inner).length) next)
    (hmirrors : Mirrors o.tapeSize entry.framed s c)
    (hpositive : (Program.loop inner next).Positive)
    (hstays : Program.StaysOn o.tapeSize ⟨.loop inner next, s⟩)
    (hstep : Program.step ⟨.loop inner next, s⟩ = some t')
    (hholds : ∀ m, Passes o code entry.framed ⟨.loop inner next, s⟩ m →
      holds m) :
    ∃ m', Follows o code entry t' m'
      ∧ Along₁ (Machine.step code) holds ⟨top, c⟩ m' := by
  have hpositive' := Program.Positive.step hpositive hstep
  have hstays' := hstays.step hstep
  obtain ⟨c', heffects, hmirrors', hequal⟩ :=
    hmirrors.effects_loopTest hsize (hstays.here trivial)
  have htest : Along₁ (Machine.step code) holds ⟨top, c⟩ ⟨top + 3, c'⟩ :=
    along_loopTest hloop.left.left heffects
      (hholds _ (.label hloop.left.left.getElem?))
      fun _ _ _ _ hsplit hline hdone =>
        hholds _ (.instruction hline hsplit hmirrors hdone)
  have hjump := getElem?_loopTop hloop.left.left
  have hhere : holds ⟨top + 3, c'⟩ :=
    hholds _ (.jump hjump (comment_operands ..))
  by_cases hcell : s.cell = 0
  · rw [Program.step_loop_zero hcell] at hstep
    cases hstep
    have hend := hloop.right.getElem?
    have hskip := step_skip hlabels hloop (hequal.mpr hcell)
    refine ⟨_, .running hnext hmirrors' hpositive' hstays', ?_⟩
    rw [length_loopCode, ← Nat.add_assoc]
    exact .tail (.tail htest ⟨hhere, hskip⟩)
      ⟨hholds _ (.label hend), step_label hend c'⟩
  · rw [Program.step_loop_nonzero hcell] at hstep
    cases hstep
    have henter := step_je_unequal hjump (mt hequal.mp hcell)
    exact ⟨_, .running (.entered hloop hnext) hmirrors' hpositive' hstays',
      .tail htest ⟨hhere, henter⟩⟩

/-- The first step of a task is followed by a stretch of the machine. -/
theorem Follows.along_step {holds : Machine → Prop} {t t' : Task}
    {m : Machine} (hlabels : (labels code).Nodup)
    (hsize : o.tapeSize ≤ 2 ^ 32) (h : Follows o code entry t m)
    (hstep : Program.step t = some t')
    (hholds : ∀ m', Passes o code entry.framed t m' → holds m') :
    ∃ m', Follows o code entry t' m'
      ∧ Along₁ (Machine.step code) holds m m' := by
  cases h with
  | @running t line c hplaced hmirrors hpositive hstays =>
      obtain ⟨rest, s⟩ := t
      cases hplaced.meets with
      | finish => cases hstep
      | run op count hline hnext =>
          obtain ⟨c', heffects, hmirrors'⟩ :=
            hmirrors.effects_runCode hsize op hpositive.1 hstays.here
          have hpositive' := hpositive.step hstep
          have hstays' := hstays.step hstep
          cases hstep
          rw [← c.effects_commentFirst o (runText op count)] at heffects
          have hrun : Along (Machine.step code) holds ⟨line, c⟩
              ⟨line + (runLines o op count).length, c'⟩ :=
            along_effects hline heffects fun _ _ _ _ hsplit hi hdone =>
              hholds _ (.instruction hi hsplit hmirrors hdone)
          refine ⟨_, .running hnext hmirrors' hpositive' hstays',
            hrun.along₁ fun heq => ?_⟩
          have hpos := List.length_pos_iff.mpr (runLines_ne_nil o op count)
          injection heq with hlines
          omega
      | enter hloop hnext =>
          exact along_loopStep hlabels hsize hloop hnext hmirrors hpositive
            hstays hstep hholds
      | back hline hloop hnext =>
          -- the body is at its end: one step, and the loop is met again
          obtain ⟨m', hfollows, hrun⟩ := along_loopStep hlabels hsize
            hloop hnext hmirrors hpositive hstays hstep hholds
          have hback := step_back hlabels hloop hline c
          exact ⟨m', hfollows, .head
            ⟨hholds _ (.jump hline.getElem? (comment_operands ..)), hback⟩
            hrun⟩
  | returned => cases hstep

/-- Where nothing is left to do, a stretch leads over the epilogue to the
return. -/
theorem Follows.along_return {holds : Machine → Prop} {t : Task}
    {m : Machine} (h : Follows o code entry t m) (hdone : t.rest = .done)
    (hholds : ∀ i ∈ restoring, ∀ m' : Machine,
      code[m'.line]? = some (.instruction i) → holds m') :
    ∃ m', Along (Machine.step code) holds m m' ∧ m'.Returns code
      ∧ t.state.console = m'.core.console := by
  cases h with
  | @running t line c hplaced hmirrors =>
      rw [hdone] at hplaced
      cases hplaced.meets with
      | finish hline =>
          rw [epilogue_eq_restoring, List.map_append] at hline
          obtain ⟨c', heffects, -, -, -, hconsole⟩ :=
            Core.effects_restoring hmirrors.stack hmirrors.pointer
          have hrun : Along (Machine.step code) holds ⟨line, c⟩
              ⟨line + restoring.length, c'⟩ :=
            along_effects hline.left heffects fun _ i _ _ hsplit hi _ =>
              hholds i (hsplit ▸ List.mem_append_right _
                (List.mem_cons_self ..)) _ hi
          have hret := hline.right
          rw [List.length_map] at hret
          exact ⟨_, hrun, hret.getElem?,
            hmirrors.console.symm.trans hconsole.symm⟩
  | returned hconsole hreturns => exact ⟨m, .refl, hreturns, hconsole⟩

/-- Where nothing is left to do, the machine gets to its return. -/
theorem Follows.returns {t : Task} {m : Machine}
    (h : Follows o code entry t m) (hdone : t.rest = .done) :
    ∃ m', Reaches (Machine.step code) m m' ∧ m'.Returns code
      ∧ t.state.console = m'.core.console := by
  have halways : ∀ i ∈ restoring, ∀ m' : Machine,
      code[m'.line]? = some (.instruction i) → True :=
    fun _ _ _ _ => trivial
  obtain ⟨m', hrun, hreturns, hconsole⟩ := h.along_return hdone halways
  exact ⟨m', hrun.reaches, hreturns, hconsole⟩

/-- The machine gets to wherever the tree gets. -/
theorem Follows.of_reaches {t t' : Task} {m : Machine}
    (hlabels : (labels code).Nodup) (hsize : o.tapeSize ≤ 2 ^ 32)
    (h : Follows o code entry t m) (ht : Reaches Program.step t t') :
    ∃ m', Follows o code entry t' m'
      ∧ Reaches (Machine.step code) m m' := by
  induction ht with
  | refl => exact ⟨m, h, .refl⟩
  | tail _ hstep ih =>
      obtain ⟨m₁, hfollows, hreach⟩ := ih
      have halways : ∀ m' t₁, Passes o code entry.framed t₁ m' → True :=
        fun _ _ _ => trivial
      obtain ⟨m', hfollows', hrun⟩ :=
        hfollows.along_step hlabels hsize hstep (halways · _)
      exact ⟨m', hfollows', hreach.trans hrun.along.reaches⟩

/-- The machine follows the tree. -/
private theorem simulation (hlabels : (labels code).Nodup)
    (hsize : o.tapeSize ≤ 2 ^ 32) :
    System.Simulation Program.system (Machine.system code)
      (Follows o code entry) where
  record := by
    intro t m h
    cases h with
    | running _ hmirrors =>
        exact congrArg Console.events hmirrors.console.symm
    | returned hconsole => exact congrArg Console.events hconsole
  advance := by
    intro t m t' h hstep
    have halways : ∀ m', Passes o code entry.framed t m' → True :=
      fun _ _ => trivial
    obtain ⟨m', hfollows, hrun⟩ :=
      h.along_step hlabels hsize hstep halways
    exact ⟨m', hfollows, hrun.reaches₁⟩
  finish := by
    rintro ⟨rest, s⟩ m h hstop
    obtain rfl : rest = .done := Program.step_eq_none hstop
    obtain ⟨m', hreach, hreturns, hconsole⟩ := h.returns rfl
    exact ⟨m', .returned hconsole hreturns, hreach, hreturns.step_eq_none⟩

end Following

-- ======================================================== the program

/-- The lines that a listing gets for a program run as the program does,
on a blank tape. The run begins at the entry label, in any state of the
machine in which the tape is blank and nothing has happened at the
console yet; it performs what the run of the program performs, and it
comes to an end, at its return, exactly if that does. The head has to be
on the tape whenever the run of the program uses a cell. -/
theorem Listing.agrees_add (l : Listing) {p : Program}
    (hpositive : p.Positive) (hsize : l.options.tapeSize ≤ 2 ^ 32)
    {input : Stream' Word}
    (hstays : Program.StaysOn l.options.tapeSize ⟨p, .blank input⟩)
    {c : Core} (hconsole : c.console = .ofInput input)
    (hblank : ∀ i : Word, i.toNat < l.options.tapeSize →
      c.memory tapeLabel i = 0) :
    let code := (l.add p).lines.drop l.lines.length
    ∃ line, Machine.target code entryLabel = some line
      ∧ Program.system.Agrees (Machine.system code)
        (fun _ m => m.Returns code) ⟨p, .blank input⟩ ⟨line, c⟩ := by
  intro code
  have hcode : code = unit l.options l.loops p := l.drop_add p
  have hlabels : (labels code).Nodup := by
    rw [hcode]
    exact nodup_labels_unit l.options l.loops p
  have hunit : At code 5 (.label entryLabel :: (prologue.map .instruction
      ++ (body l.options l.loops p ++ epilogue.map .instruction))) := by
    rw [hcode]
    exact at_entry l.options l.loops p
  refine ⟨5, target_eq_some hlabels hunit.getElem?, ?_⟩
  have hstart : Reaches (Machine.step code) ⟨5, c⟩
      ⟨9, { c.framed.set .b 0 with equal := true }⟩ :=
    .head (step_label hunit.getElem? c)
      (reaches_effects hunit.tail.left c.effects_prologue)
  have hfollows : Follows l.options code c ⟨p, .blank input⟩
      ⟨9, { c.framed.set .b 0 with equal := true }⟩ :=
    .running (.outermost hunit.tail.right) (.blank hblank hconsole)
      hpositive hstays
  have hends : ∀ {t : Task} {m : Machine}, Follows l.options code c t m →
      Program.step t = none → m.step code = none → m.Returns code := by
    intro t m h hstop hstuck
    obtain ⟨m', hreach, hreturns, -⟩ := h.returns (Program.step_eq_none hstop)
    rcases hreach.cases_head with rfl | ⟨m₁, hm₁, -⟩
    · exact hreturns
    · rw [hstuck] at hm₁
      cases hm₁
  have hrun : Program.system.Agrees (Machine.system code)
      (fun _ m => m.Returns code) ⟨p, .blank input⟩
      ⟨9, { c.framed.set .b 0 with equal := true }⟩ :=
    (simulation hlabels hsize).agrees hends hfollows
  have hbefore := (System.agrees_of_reaches (S := Machine.system code)
    hstart).symm
  exact hrun.trans hbefore fun _ m m' hreturns heq => heq ▸ hreturns

/-- The head may leave the tape between two uses of a cell, and what is
in memory behind the tape does not matter. -/
theorem Listing.agrees_add_excursion :
    let p : Program := .run .moveLeft 3 (.run .moveRight 3 (.run .read 2
      (.loop (.run .write 2 (.run .decrement 1 .done)) .done)))
    let l : Listing :=
      { options := { tapeSize := 1, comments := false }, loops := 4 }
    let input : Stream' Word := Stream'.const 1
    let c : Core :=
      { registers := fun _ => 7
        equal := false
        memory := fun _ i => if i = 0 then 0 else 255
        stack := []
        console := .ofInput input
        leftovers := Stream'.const ⟨1, 2, 3, true⟩ }
    let code := (l.add p).lines.drop l.lines.length
    Program.StaysOn l.options.tapeSize ⟨p, .blank input⟩
      ∧ ∃ line, Machine.target code entryLabel = some line
        ∧ Program.system.Agrees (Machine.system code)
          (fun _ m => m.Returns code) ⟨p, .blank input⟩ ⟨line, c⟩ := by
  intro p l input c code
  have hpositive : p.Positive := by
    refine ⟨?_, ?_, ?_, ⟨?_, ?_, trivial⟩, trivial⟩
    · decide
    · decide
    · decide
    · decide
    · decide
  have hstays : Program.StaysOn l.options.tapeSize ⟨p, .blank input⟩ := by
    refine .of_step (fun h => absurd rfl h.2) rfl ?_
    refine .of_step (fun h => absurd rfl h.1) rfl ?_
    refine .of_step (fun _ => by decide) rfl ?_
    refine .of_step (fun _ => by decide)
      (Program.step_loop_nonzero (by decide) ..) ?_
    refine .of_step (fun _ => by decide) rfl ?_
    refine .of_step (fun _ => by decide) rfl ?_
    refine .of_step (fun _ => by decide)
      (Program.step_loop_zero (by decide) ..) ?_
    exact Program.staysOn_done _ _
  have hblank : ∀ i : Word, i.toNat < l.options.tapeSize →
      c.memory tapeLabel i = 0 := by
    intro i hi
    have hzero : i = 0 := BitVec.eq_of_toNat_eq (Nat.lt_one_iff.mp hi)
    exact if_pos hzero
  exact ⟨hstays, l.agrees_add hpositive (by decide) hstays rfl hblank⟩

end TapeAsm.Asm
