/-
The labels and the jumps of a text, over any number of programs. A loop
has a site in the text: its number, and the lines of the two labels that
are made from it. The sites come in reading order and are numbered from
one, no line defines another loop label, and no jump is taken but from
the line above the end of a loop to its top and from behind its test to
its end (`Site.Owns`). In the text a site is within another exactly if
its loop is inside the other's, and apart from it else
(`Site.Precedes`, `LoopsLabelled`).

What is known of the sites in a stretch of lines is put together from
smaller stretches: `Laid` holds of lines without labels and jumps, of
one stretch behind another and of a loop around a stretch, and so of the
lines of programs of any shape.
-/
import TapeAsm.Proofs.Program.LoopOrder
import TapeAsm.Proofs.Asm.Placement

namespace TapeAsm.Asm

-- ============================================================== jumps

/-- Whether an operand is a place in the text. -/
def Operand.isLabel : Operand → Bool
  | .label _ => true
  | .register _ => false
  | .immediate _ => false
  | .memory .. => false

/-- Whether an instruction is a jump: one by its name, all of which
begin with the same letter, or any that takes a place in the text, a
call apart. -/
def Instruction.isJump (i : Instruction) : Bool :=
  i.mnemonic.toList.head? = some 'j'
    || i.mnemonic ≠ "call" && i.operands.any Operand.isLabel

/-- The line holds the jump `mnemonic` to the label `name`. -/
def JumpAt (code : List Line) (line : Nat) (mnemonic name : String) :
    Prop :=
  ∃ i, code[line]? = some (.instruction i)
    ∧ i.mnemonic = mnemonic ∧ i.operands = [.label name]

/-- Whether a line belongs to a loop: it defines a label other than that
of the whole program, or it is a jump. -/
def Line.isLoopLine : Line → Bool
  | .directive _ => false
  | .label name => name ≠ entryLabel
  | .instruction i => i.isJump

/-- No instruction of a run is a jump. -/
theorem OfRun.isJump_eq_false {op : Op} {count : Nat} {i : Instruction}
    (h : OfRun op count i) : i.isJump = false := by
  refine of_forms (P := fun i => i.isJump = false) (by decide) ?_ h
  simp [numberForms, Instruction.isJump, head, cell, Operand.isLabel]

/-- A comment makes no jump. -/
theorem Instruction.isJump_congr {i j : Instruction}
    (hmnemonic : i.mnemonic = j.mnemonic)
    (hoperands : i.operands = j.operands) : i.isJump = j.isJump := by
  rw [isJump, isJump, hmnemonic, hoperands]

/-- There are no jumps in the code of a run. -/
theorem isJump_of_mem_runLines {o : Options} {op : Op} {count : Nat}
    {i : Instruction} (h : i ∈ runLines o op count) : i.isJump = false := by
  obtain ⟨j, hj, hmnemonic, hoperands⟩ := ofRun_of_mem_runLines h
  rw [Instruction.isJump_congr hmnemonic hoperands]
  exact hj.isJump_eq_false

-- ============================================================== sites

/-- A loop in a text: its number, the line of the label at its top and
that of the label behind it. -/
structure Site where
  loop : Loop
  number : Nat
  top : Nat
  bottom : Nat
deriving DecidableEq

namespace Site

/-- A site as the block around sees it. -/
def under (item : Nat) (s : Site) : Site :=
  { s with loop := s.loop.under item }

/-- The loop has its site in these lines, the first of which is
`line`. -/
def Stands (o : Options) (line : Nat) (ls : List Line) (s : Site) : Prop :=
  ∃ before after,
    ls = before ++ (loopCode o s.number s.loop.body ++ after)
    ∧ s.top = line + before.length
    ∧ s.bottom + 1
      = s.top + (loopCode o s.number s.loop.body).length

/-- The line with these contents is a label or a jump of the loop. -/
inductive Owns (o : Options) (s : Site) (line : Nat) (l : Line) :
    Prop where
  | top (hline : line = s.top) (h : l = .label (loopLabel s.number))
  | skip (hline : line = s.top + 3)
    (h : l = .instruction
      (o.comment "[" (Build.je (endLabel s.number))))
  | back (hline : line + 1 = s.bottom)
    (h : l = .instruction (jumpBack o s.number))
  | bottom (hline : line = s.bottom) (h : l = .label (endLabel s.number))

/-- Of two loops in reading order, the later is inside the earlier or
behind it, in its program as in the text. -/
inductive Precedes (s t : Site) : Prop where
  | inside (haddress : s.loop.address <+: t.loop.address)
    (hproper : ¬ t.loop.address <+: s.loop.address)
    (htop : s.top < t.top) (hbottom : t.bottom < s.bottom)
  | behind (hleft : ¬ s.loop.address <+: t.loop.address)
    (hright : ¬ t.loop.address <+: s.loop.address)
    (hline : s.bottom < t.top)

theorem Stands.bounds {o : Options} {line : Nat} {ls : List Line}
    {s : Site} (h : s.Stands o line ls) :
    line ≤ s.top ∧ s.bottom < line + ls.length := by
  obtain ⟨before, after, rfl, htop, hbottom⟩ := h
  rw [List.length_append, List.length_append]
  omega

/-- The label behind the loop is its last line. -/
theorem Stands.bottom {o : Options} {line : Nat} {ls : List Line}
    {s : Site} (h : s.Stands o line ls) :
    s.bottom = s.top + 4 + (loopRest o s.number s.loop.body).length := by
  obtain ⟨-, -, -, -, hbottom⟩ := h
  rw [length_loopCode, List.length_append, length_loopTop] at hbottom
  omega

/-- More lines around do not move a site. -/
theorem Stands.widen {o : Options} {line : Nat} {ls : List Line}
    {s : Site} (front back : List Line)
    (h : s.Stands o (line + front.length) ls) :
    s.Stands o line (front ++ (ls ++ back)) := by
  obtain ⟨before, after, rfl, htop, hbottom⟩ := h
  refine ⟨front ++ before, after ++ back, ?_, ?_, hbottom⟩
  · simp only [List.append_assoc]
  · rw [htop, List.length_append, Nat.add_assoc]

theorem Precedes.under {s t : Site} (h : s.Precedes t) (item : Nat) :
    (s.under item).Precedes (t.under item) := by
  cases h with
  | inside haddress hproper htop hbottom =>
      refine .inside ?_ ?_ htop hbottom
      · exact (List.prefix_cons_inj item).mpr haddress
      · exact fun h => hproper ((List.prefix_cons_inj item).mp h)
  | behind hleft hright hline =>
      refine .behind ?_ ?_ hline
      · exact fun h => hleft ((List.prefix_cons_inj item).mp h)
      · exact fun h => hright ((List.prefix_cons_inj item).mp h)

end Site

/-- The site of a loop whose label is at a line, seen from its own
block. -/
def siteAt (o : Options) (line number : Nat) (inner : Program) : Site where
  loop := ⟨[], inner⟩
  number := number
  top := line
  bottom := line + 4 + (loopRest o number inner).length

-- ========================================================= stretches

/-- The labels and the jumps in some lines, the first of which is
`line`, all belong to one of the sites. -/
def Owned (o : Options) (line : Nat) (ls : List Line)
    (sites : List Site) : Prop :=
  ∀ i l, ls[i]? = some l → l.isLoopLine = true →
    ∃ s ∈ sites, s.Owns o (line + i) l

namespace Owned

variable {o : Options} {line : Nat} {ls ls' : List Line}
  {sites sites' : List Site}

theorem plain (h : ∀ l ∈ ls, l.isLoopLine = false) :
    Owned o line ls sites := by
  intro i l hl hloop
  rw [h l (List.mem_of_getElem? hl)] at hloop
  cases hloop

theorem append (h : Owned o line ls sites)
    (h' : Owned o (line + ls.length) ls' sites) :
    Owned o line (ls ++ ls') sites := by
  intro i l hl hloop
  rcases Nat.lt_or_ge i ls.length with hi | hi
  · rw [List.getElem?_append_left hi] at hl
    exact h i l hl hloop
  · rw [List.getElem?_append_right hi] at hl
    have howned := h' (i - ls.length) l hl hloop
    rwa [Nat.add_assoc, Nat.add_sub_cancel' hi] at howned

theorem single {l : Line} {s : Site} (hs : s ∈ sites)
    (h : s.Owns o line l) : Owned o line [l] sites := by
  intro i l' hl _
  rw [List.getElem?_singleton] at hl
  split at hl
  · next hi =>
      cases hl
      rw [hi]
      exact ⟨s, hs, h⟩
  · cases hl

theorem mono (h : Owned o line ls sites) (hsub : sites ⊆ sites') :
    Owned o line ls sites' := by
  intro i l hl hloop
  obtain ⟨s, hs, howns⟩ := h i l hl hloop
  exact ⟨s, hsub hs, howns⟩

/-- The labels and the jumps of a loop that has a site, if those of its
body belong to sites. -/
theorem loop {s : Site} (hs : s ∈ sites)
    (hbottom : s.bottom
      = s.top + 4 + (loopRest o s.number s.loop.body).length)
    (h : Owned o (s.top + 4) (body o s.number s.loop.body) sites) :
    Owned o s.top (loopCode o s.number s.loop.body) sites := by
  have htop : Owned o s.top (loopTop o s.number) sites := by
    have htest : Owned o (s.top + 1) (loopTest.map .instruction) sites :=
      .plain (by decide)
    exact .append (.single hs (.top rfl rfl))
      (htest.append (.single hs (.skip rfl rfl)))
  have hrest : Owned o (s.top + 4) (loopRest o s.number s.loop.body)
      sites := by
    refine .append h (.single hs (.back ?_ rfl))
    rw [hbottom, loopRest, List.length_append, List.length_singleton,
      Nat.add_assoc]
  refine .append (.append htop hrest) (.single hs (.bottom ?_ rfl))
  rw [hbottom, List.length_append, length_loopTop, Nat.add_assoc]

end Owned

/-- What is known of the sites in some lines, the first of which is
`line`, when `loops` loops are numbered before. -/
structure Laid (o : Options) (line loops : Nat) (ls : List Line)
    (sites : List Site) : Prop where
  numbers : sites.map Site.number = List.range' (loops + 1) sites.length
  stands : ∀ s ∈ sites, s.Stands o line ls
  owned : Owned o line ls sites
  ordered : sites.Pairwise Site.Precedes

namespace Laid

variable {o : Options} {line loops : Nat} {ls ls' : List Line}
  {sites sites' : List Site}

/-- Lines without labels and jumps have no loops in them. -/
theorem plain (h : ∀ l ∈ ls, l.isLoopLine = false) :
    Laid o line loops ls [] where
  numbers := rfl
  stands := fun _ hs => nomatch hs
  owned := .plain h
  ordered := .nil

/-- In a block, the sites of part `item`. -/
theorem under (h : Laid o line loops ls sites) (item : Nat) :
    Laid o line loops ls (sites.map (.under item)) where
  numbers := by
    rw [List.length_map, ← h.numbers, List.map_map]
    rfl
  stands := by
    intro s hs
    obtain ⟨t, ht, rfl⟩ := List.mem_map.mp hs
    exact h.stands t ht
  owned := by
    intro i l hl hloop
    obtain ⟨s, hs, howns⟩ := h.owned i l hl hloop
    refine ⟨s.under item, List.mem_map_of_mem hs, ?_⟩
    cases howns with
    | top hline h => exact .top hline h
    | skip hline h => exact .skip hline h
    | back hline h => exact .back hline h
    | bottom hline h => exact .bottom hline h
  ordered := List.pairwise_map.mpr
    (h.ordered.imp fun hprecedes => hprecedes.under item)

/-- One stretch behind another, if no loop of the one is inside a loop
of the other. -/
theorem append (h : Laid o line loops ls sites)
    (h' : Laid o (line + ls.length) (loops + sites.length) ls' sites')
    (hapart : ∀ s ∈ sites, ∀ t ∈ sites',
      ¬ s.loop.address <+: t.loop.address
        ∧ ¬ t.loop.address <+: s.loop.address) :
    Laid o line loops (ls ++ ls') (sites ++ sites') where
  numbers := by
    rw [List.map_append, h.numbers, h'.numbers, List.length_append,
      Nat.add_right_comm loops]
    exact List.range'_append_1
  stands := by
    intro s hs
    rcases List.mem_append.mp hs with hs | hs
    · exact (h.stands s hs).widen [] ls'
    · have hwide := (h'.stands s hs).widen ls []
      rwa [List.append_nil] at hwide
  owned := (h.owned.mono (List.subset_append_left ..)).append
    (h'.owned.mono (List.subset_append_right ..))
  ordered := by
    refine List.pairwise_append.mpr ⟨h.ordered, h'.ordered, ?_⟩
    intro s hs t ht
    obtain ⟨hleft, hright⟩ := hapart s hs t ht
    have hs := (h.stands s hs).bounds
    have ht := (h'.stands t ht).bounds
    exact .behind hleft hright (by omega)

/-- The sites of part `item` of a block, and behind it those of later
parts. -/
theorem part (h : Laid o line loops ls sites) (item : Nat)
    (h' : Laid o (line + ls.length) (loops + sites.length) ls' sites')
    (hlater : ∀ t ∈ sites', t.loop.IsFrom (item + 1)) :
    Laid o line loops (ls ++ ls') (sites.map (.under item) ++ sites') := by
  refine (h.under item).append ?_ fun s hs t ht => ?_
  · rwa [List.length_map]
  · obtain ⟨s, -, rfl⟩ := List.mem_map.mp hs
    exact (hlater t ht).apart s.loop

/-- Lines without labels and jumps in front. -/
theorem after (hfront : ∀ l ∈ ls, l.isLoopLine = false)
    (h : Laid o (line + ls.length) loops ls' sites) :
    Laid o line loops (ls ++ ls') sites :=
  (plain hfront).append h fun _ hs => nomatch hs

/-- Lines without labels and jumps behind. -/
theorem before (h : Laid o line loops ls sites)
    (hback : ∀ l ∈ ls', l.isLoopLine = false) :
    Laid o line loops (ls ++ ls') sites := by
  have h' := h.append (plain hback) fun _ _ t ht => nomatch ht
  rwa [List.append_nil] at h'

/-- A loop around the lines of its body. -/
theorem loop {inner : Program}
    (h : Laid o (line + 4) (loops + 1) (body o (loops + 1) inner) sites)
    (haddress : ∀ s ∈ sites, s.loop.address ≠ []) :
    Laid o line loops (loopCode o (loops + 1) inner)
      (siteAt o line (loops + 1) inner :: sites) where
  numbers := by
    rw [List.map_cons, h.numbers, List.length_cons, List.range'_succ]
    rfl
  stands := by
    intro s hs
    rcases List.mem_cons.mp hs with rfl | hs
    · refine ⟨[], [], ?_, rfl, ?_⟩
      · simp only [siteAt, List.nil_append, List.append_nil]
      · simp only [siteAt, length_loopCode, List.length_append,
          length_loopTop]
        omega
    · have hwide := (h.stands s hs).widen (loopTop o (loops + 1))
        [.instruction (jumpBack o (loops + 1)),
          .label (endLabel (loops + 1))]
      simpa [loopCode, loopRest] using hwide
  owned := Owned.loop (s := siteAt o line (loops + 1) inner)
    (List.mem_cons_self ..) rfl (h.owned.mono (List.subset_cons_self ..))
  ordered := by
    refine List.pairwise_cons.mpr ⟨fun t ht => ?_, h.ordered⟩
    obtain ⟨htop, hbottom⟩ := (h.stands t ht).bounds
    refine .inside List.nil_prefix ?_ ?_ ?_
    · exact fun hprefix => haddress t ht (List.prefix_nil.mp hprefix)
    · simp only [siteAt]
      omega
    · simp only [siteAt, loopRest, List.length_append,
        List.length_singleton]
      omega

end Laid

-- ================================================= sites of a program

/-- The sites of the loops of a block, the code of which begins at a
line. As in `loopsFrom`, `item` parts of the block stand before. -/
def sitesFrom (o : Options) : Nat → Nat → Nat → Program → List Site
  | _, _, _, .done => []
  | line, loops, item, .run op count next =>
    sitesFrom o (line + (runLines o op count).length) loops (item + 1) next
  | line, loops, item, .loop inner next =>
    (siteAt o line (loops + 1) inner
        :: sitesFrom o (line + 4) (loops + 1) 0 inner).map (.under item)
      ++ sitesFrom o (line + (loopCode o (loops + 1) inner).length)
        (loops + 1 + inner.loops) (item + 1) next

/-- The sites of the loops of programs, the text of which begins at a
line. As in `loopsOf`, `item` programs stand before. -/
def sitesOf (o : Options) : Nat → Nat → Nat → List Program → List Site
  | _, _, _, [] => []
  | line, loops, item, p :: ps =>
    (sitesFrom o (line + (header o ++ prologue.map Line.instruction).length)
        loops 0 p).map (.under item)
      ++ sitesOf o (line + (unit o loops p).length) (loops + p.loops)
        (item + 1) ps

/-- The text of programs one after the other, when `loops` loops are
numbered before. -/
def units (o : Options) : Nat → List Program → List Line
  | _, [] => []
  | loops, p :: ps => unit o loops p ++ units o (loops + p.loops) ps

variable {o : Options}

theorem map_loop_under (item : Nat) (sites : List Site) :
    (sites.map (.under item)).map Site.loop
      = (sites.map Site.loop).map (.under item) := by
  rw [List.map_map, List.map_map]
  rfl

/-- There is one site for each loop of a program, in reading order. -/
theorem map_loop_sitesFrom (line loops item : Nat) (p : Program) :
    (sitesFrom o line loops item p).map Site.loop
      = p.loopsFrom item := by
  induction p generalizing line loops item with
  | done => rfl
  | run op count next ih => exact ih ..
  | loop inner next ihInner ih =>
      rw [sitesFrom, List.map_append, map_loop_under, List.map_cons,
        ihInner, ih]
      rfl

/-- The same goes for several programs. -/
theorem map_loop_sitesOf (line loops item : Nat) (ps : List Program) :
    (sitesOf o line loops item ps).map Site.loop
      = Program.loopsOf item ps := by
  induction ps generalizing line loops item with
  | nil => rfl
  | cons p ps ih =>
      rw [sitesOf, List.map_append, map_loop_under, map_loop_sitesFrom, ih]
      rfl

theorem length_sitesFrom (line loops item : Nat) (p : Program) :
    (sitesFrom o line loops item p).length = p.loops := by
  rw [← List.length_map Site.loop, map_loop_sitesFrom,
    Program.length_loopsFrom]

theorem isFrom_of_mem_sitesFrom {line loops item : Nat} {p : Program}
    {s : Site} (h : s ∈ sitesFrom o line loops item p) :
    s.loop.IsFrom item := by
  have hloop : s.loop ∈ Program.loopsFrom item p := by
    rw [← map_loop_sitesFrom line loops item p]
    exact List.mem_map_of_mem h
  exact Program.isFrom_of_mem_loopsFrom hloop

theorem isFrom_of_mem_sitesOf {line loops item : Nat} {ps : List Program}
    {s : Site} (h : s ∈ sitesOf o line loops item ps) :
    s.loop.IsFrom item := by
  have hloop : s.loop ∈ Program.loopsOf item ps := by
    rw [← map_loop_sitesOf line loops item ps]
    exact List.mem_map_of_mem h
  exact Program.isFrom_of_mem_loopsOf hloop

/-- The lines of a program hold its loops, by induction on the program. -/
theorem laid_body (line loops item : Nat) (p : Program) :
    Laid o line loops (body o loops p) (sitesFrom o line loops item p) := by
  induction p generalizing line loops item with
  | done => exact .plain fun _ h => nomatch h
  | run op count next ih =>
      have hrun : ∀ l ∈ (runLines o op count).map Line.instruction,
          l.isLoopLine = false := by
        intro l hl
        obtain ⟨i, hi, rfl⟩ := List.mem_map.mp hl
        exact isJump_of_mem_runLines hi
      rw [body_run]
      refine .after hrun ?_
      rw [List.length_map]
      exact ih ..
  | loop inner next ihInner ih =>
      rw [body_loop]
      have hloop := (ihInner (line + 4) (loops + 1) 0).loop fun s hs => by
        obtain ⟨place, rest, haddress, -⟩ := isFrom_of_mem_sitesFrom hs
        rw [haddress]
        exact List.cons_ne_nil place rest
      refine hloop.part item ?_ fun t ht => isFrom_of_mem_sitesFrom ht
      rw [List.length_cons, length_sitesFrom, Nat.add_comm inner.loops,
        ← Nat.add_assoc]
      exact ih ..

/-- A whole text has no loops but those of its program. -/
theorem laid_unit (line loops : Nat) (p : Program) :
    Laid o line loops (unit o loops p)
      (sitesFrom o
        (line + (header o ++ prologue.map Line.instruction).length)
        loops 0 p) := by
  have hfront : ∀ l ∈ header o ++ prologue.map Line.instruction,
      l.isLoopLine = false :=
    List.forall_mem_append.mpr
      ⟨by simp [header, Line.isLoopLine], by decide⟩
  rw [unit_eq]
  exact .before (.after hfront (laid_body _ loops 0 p)) (by decide)

/-- Programs one after the other keep their loops apart. -/
theorem laid_units (line loops item : Nat) (ps : List Program) :
    Laid o line loops (units o loops ps)
      (sitesOf o line loops item ps) := by
  induction ps generalizing line loops item with
  | nil => exact .plain fun _ h => nomatch h
  | cons p ps ih =>
      refine (laid_unit line loops p).part item ?_ fun t ht =>
        isFrom_of_mem_sitesOf ht
      rw [length_sitesFrom]
      exact ih ..

-- ============================================================== texts

/-- Names in a text that are not made for a loop. -/
def outerNames : List String :=
  [entryLabel, tapeLabel, writeRoutine, readRoutine]

/-- The labels of loops are none of the other names. -/
theorem NamesLoop.not_mem_outerNames {n : Nat} {name : String}
    (h : NamesLoop n name) : name ∉ outerNames := by
  have hhead : name.toList.head? = some 'l'
      ∨ name.toList.head? = some 'e' := by
    rcases h with rfl | rfl
    · exact .inl (head?_loopLabel n)
    · exact .inr (head?_endLabel n)
  intro hmem
  have houter : ∀ outer ∈ outerNames, outer.toList.head? ≠ some 'l'
      ∧ outer.toList.head? ≠ some 'e' := by
    decide
  obtain ⟨hl, he⟩ := houter name hmem
  exact hhead.elim hl he

/-- The labels and the jumps of the code of programs: the sites are all
the loops of the programs, and they are numbered, labelled, jumped to
and nested as such. -/
structure LoopsLabelled (o : Options) (ps : List Program)
    (code : List Line) (sites : List Site) : Prop where
  /-- There is a site for each loop, in reading order. -/
  loops : sites.map Site.loop = Program.loopsOf 0 ps
  /-- In this order the numbers count from one. -/
  numbers : sites.map Site.number
    = List.range' 1 (Program.loopsOf 0 ps).length
  /-- The code of a loop begins at its top and ends at its bottom. -/
  stands : ∀ s ∈ sites, At code s.top (loopCode o s.number s.loop.body)
    ∧ s.bottom + 1 = s.top + (loopCode o s.number s.loop.body).length
  /-- The label of a loop is defined once. -/
  top : ∀ s ∈ sites, ∀ line,
    code[line]? = some (.label (loopLabel s.number)) ↔ line = s.top
  /-- The label behind a loop is defined once. -/
  bottom : ∀ s ∈ sites, ∀ line,
    code[line]? = some (.label (endLabel s.number)) ↔ line = s.bottom
  /-- No other labels are defined. -/
  labels : ∀ name ∈ labels code, name ≠ entryLabel →
    ∃ s ∈ sites, NamesLoop s.number name
  /-- One jump leads behind a loop. -/
  skip : ∀ s ∈ sites, ∀ line,
    JumpAt code line "je" (endLabel s.number) ↔ line = s.top + 3
  /-- One jump leads back to the top of a loop. -/
  back : ∀ s ∈ sites, ∀ line,
    JumpAt code line "jmp" (loopLabel s.number) ↔ line + 1 = s.bottom
  /-- There are no other jumps. -/
  jumps : ∀ line i, code[line]? = some (.instruction i) →
    i.isJump = true → ∃ s ∈ sites,
      JumpAt code line "je" (endLabel s.number)
        ∨ JumpAt code line "jmp" (loopLabel s.number)
  /-- A loop is within another in the text if it is in its program. -/
  nested : ∀ s ∈ sites, ∀ t ∈ sites,
    s.top ≤ t.top ∧ t.bottom ≤ s.bottom
      ↔ s.loop.address <+: t.loop.address
  /-- Loops of which neither is within the other do not overlap. -/
  apart : ∀ s ∈ sites, ∀ t ∈ sites,
    ¬ s.loop.address <+: t.loop.address →
    ¬ t.loop.address <+: s.loop.address →
      s.bottom < t.top ∨ t.bottom < s.top
  /-- Loops of different programs do not overlap. -/
  programs : ∀ s ∈ sites, ∀ t ∈ sites,
    s.loop.address.head? ≠ t.loop.address.head? →
      s.bottom < t.top ∨ t.bottom < s.top
  /-- The names made for loops have no other use. -/
  names : ∀ s ∈ sites, ∀ name, NamesLoop s.number name →
    name ∉ outerNames

namespace Laid

variable {code : List Line} {sites : List Site} {line : Nat}
  {s t : Site}

theorem at_site (h : Laid o 0 0 code sites) (hs : s ∈ sites) :
    At code s.top (loopCode o s.number s.loop.body)
      ∧ s.bottom + 1
        = s.top + (loopCode o s.number s.loop.body).length := by
  obtain ⟨before, after, hcode, htop, hbottom⟩ := h.stands s hs
  refine ⟨⟨after, ?_⟩, hbottom⟩
  rw [htop, Nat.zero_add, hcode, List.drop_left]

/-- A number is given to one loop only. -/
theorem eq_of_number_eq (h : Laid o 0 0 code sites) (hs : s ∈ sites)
    (ht : t ∈ sites) (hnumber : s.number = t.number) : s = t := by
  have hnodup : (sites.map Site.number).Nodup := by
    rw [h.numbers]
    exact List.nodup_range'
  exact List.inj_on_of_nodup_map hnodup hs ht hnumber

/-- A label or a jump belongs to one of the sites. -/
theorem owner (h : Laid o 0 0 code sites) {l : Line}
    (hline : code[line]? = some l) (hloop : l.isLoopLine = true) :
    ∃ s ∈ sites, s.Owns o line l := by
  have howned := h.owned line l hline hloop
  rwa [Nat.zero_add] at howned

/-- A label of a loop is at the top or the bottom of a site. -/
theorem site_of_label (h : Laid o 0 0 code sites) {name : String}
    (hline : code[line]? = some (.label name)) (hname : name ≠ entryLabel) :
    ∃ s ∈ sites, line = s.top ∧ name = loopLabel s.number
      ∨ line = s.bottom ∧ name = endLabel s.number := by
  obtain ⟨s, hs, howns⟩ := h.owner hline (decide_eq_true hname)
  cases howns with
  | top hline hl => exact ⟨s, hs, .inl ⟨hline, Line.label.inj hl⟩⟩
  | skip _ hl => cases hl
  | back _ hl => cases hl
  | bottom hline hl => exact ⟨s, hs, .inr ⟨hline, Line.label.inj hl⟩⟩

/-- A jump is behind the test or above the bottom of a site. -/
theorem site_of_jump (h : Laid o 0 0 code sites) {i : Instruction}
    (hline : code[line]? = some (.instruction i))
    (hjump : i.isJump = true) :
    ∃ s ∈ sites,
      line = s.top + 3 ∧ i.mnemonic = "je"
        ∧ i.operands = [.label (endLabel s.number)]
      ∨ line + 1 = s.bottom ∧ i.mnemonic = "jmp"
        ∧ i.operands = [.label (loopLabel s.number)] := by
  obtain ⟨s, hs, howns⟩ := h.owner hline hjump
  cases howns with
  | top _ hl => cases hl
  | skip hskip hl =>
      rw [Line.instruction.inj hl]
      exact ⟨s, hs, .inl ⟨hskip, comment_mnemonic .., comment_operands ..⟩⟩
  | back hback hl =>
      rw [Line.instruction.inj hl]
      exact ⟨s, hs, .inr ⟨hback, comment_mnemonic .., comment_operands ..⟩⟩
  | bottom _ hl => cases hl

theorem site_of_jumpAt (h : Laid o 0 0 code sites)
    {mnemonic name : String} (hjump : JumpAt code line mnemonic name)
    (hmnemonic : mnemonic.toList.head? = some 'j') :
    ∃ s ∈ sites,
      line = s.top + 3 ∧ mnemonic = "je" ∧ name = endLabel s.number
      ∨ line + 1 = s.bottom ∧ mnemonic = "jmp"
        ∧ name = loopLabel s.number := by
  obtain ⟨i, hline, rfl, hoperands⟩ := hjump
  have hjump : i.isJump = true := by
    rw [Instruction.isJump, decide_eq_true hmnemonic, Bool.true_or]
  have hsite := h.site_of_jump hline hjump
  simp only [hoperands, List.cons.injEq, Operand.label.injEq,
    and_true] at hsite
  exact hsite

/-- The label is one of a loop that has a site. -/
theorem site_of_mem_labels (h : Laid o 0 0 code sites) {name : String}
    (hmem : name ∈ labels code) (hname : name ≠ entryLabel) :
    ∃ s ∈ sites, NamesLoop s.number name := by
  obtain ⟨l, hl, hdefined⟩ := List.mem_filterMap.mp hmem
  obtain ⟨line, hline⟩ := List.getElem?_of_mem hl
  cases l with
  | directive _ => cases hdefined
  | label _ =>
      cases hdefined
      obtain ⟨s, hs, ⟨-, hlabel⟩ | ⟨-, hlabel⟩⟩ :=
        h.site_of_label hline hname
      · exact ⟨s, hs, .inl hlabel⟩
      · exact ⟨s, hs, .inr hlabel⟩
  | instruction _ => cases hdefined

/-- The jump is one of a loop that has a site. -/
theorem jumpAt_of_jump (h : Laid o 0 0 code sites) {i : Instruction}
    (hline : code[line]? = some (.instruction i))
    (hjump : i.isJump = true) :
    ∃ s ∈ sites, JumpAt code line "je" (endLabel s.number)
      ∨ JumpAt code line "jmp" (loopLabel s.number) := by
  obtain ⟨s, hs, ⟨-, hje⟩ | ⟨-, hjmp⟩⟩ := h.site_of_jump hline hjump
  · exact ⟨s, hs, .inl ⟨i, hline, hje⟩⟩
  · exact ⟨s, hs, .inr ⟨i, hline, hjmp⟩⟩

theorem getElem?_back (h : Laid o 0 0 code sites) (hs : s ∈ sites)
    (hline : line + 1 = s.bottom) :
    code[line]? = some (.instruction (jumpBack o s.number)) := by
  have hback := (at_loopRest (h.at_site hs).1).right.getElem?
  have hbottom := (h.stands s hs).bottom
  rw [loopRest, List.length_append, List.length_singleton,
    ← Nat.add_assoc, ← hline] at hbottom
  rwa [Nat.add_right_cancel hbottom]

theorem getElem?_bottom (h : Laid o 0 0 code sites) (hs : s ∈ sites) :
    code[s.bottom]? = some (.label (endLabel s.number)) := by
  have hend := (h.at_site hs).1.right.getElem?
  rw [List.length_append, length_loopTop, ← Nat.add_assoc] at hend
  rwa [(h.stands s hs).bottom]

/-- The label at the top of a loop is defined once. -/
theorem top_iff (h : Laid o 0 0 code sites) (hs : s ∈ sites) :
    code[line]? = some (.label (loopLabel s.number)) ↔ line = s.top := by
  constructor
  · intro hline
    obtain ⟨t, ht, ⟨htop, hname⟩ | ⟨-, hname⟩⟩ :=
      h.site_of_label hline (loopLabel_ne_entryLabel _)
    · rw [h.eq_of_number_eq hs ht (loopLabel_injective hname), htop]
    · exact absurd hname (loopLabel_ne_endLabel _ _)
  · rintro rfl
    exact (h.at_site hs).1.left.left.getElem?

/-- The label behind a loop is defined once. -/
theorem bottom_iff (h : Laid o 0 0 code sites) (hs : s ∈ sites) :
    code[line]? = some (.label (endLabel s.number))
      ↔ line = s.bottom := by
  constructor
  · intro hline
    obtain ⟨t, ht, ⟨-, hname⟩ | ⟨hbottom, hname⟩⟩ :=
      h.site_of_label hline (endLabel_ne_entryLabel _)
    · exact absurd hname.symm (loopLabel_ne_endLabel _ _)
    · rw [h.eq_of_number_eq hs ht (endLabel_injective hname), hbottom]
  · rintro rfl
    exact h.getElem?_bottom hs

theorem skip_iff (h : Laid o 0 0 code sites) (hs : s ∈ sites) :
    JumpAt code line "je" (endLabel s.number) ↔ line = s.top + 3 := by
  constructor
  · intro hjump
    obtain ⟨t, ht, ⟨hskip, -, hname⟩ | ⟨-, hjmp, -⟩⟩ :=
      h.site_of_jumpAt hjump (by decide)
    · rw [h.eq_of_number_eq hs ht (endLabel_injective hname), hskip]
    · exact absurd hjmp (by decide)
  · rintro rfl
    exact ⟨_, getElem?_loopTop (h.at_site hs).1.left.left,
      comment_mnemonic .., comment_operands ..⟩

theorem back_iff (h : Laid o 0 0 code sites) (hs : s ∈ sites) :
    JumpAt code line "jmp" (loopLabel s.number) ↔ line + 1 = s.bottom := by
  constructor
  · intro hjump
    obtain ⟨t, ht, ⟨-, hje, -⟩ | ⟨hback, -, hname⟩⟩ :=
      h.site_of_jumpAt hjump (by decide)
    · exact absurd hje (by decide)
    · rw [h.eq_of_number_eq hs ht (loopLabel_injective hname), hback]
  · intro hline
    exact ⟨_, h.getElem?_back hs hline,
      comment_mnemonic .., comment_operands ..⟩

/-- A loop ends below its top. -/
theorem top_lt_bottom (h : Laid o 0 0 code sites) (hs : s ∈ sites) :
    s.top < s.bottom := by
  rw [(h.stands s hs).bottom]
  omega

/-- Two sites are in order one way or the other. -/
theorem precedes_or (h : Laid o 0 0 code sites) (hs : s ∈ sites)
    (ht : t ∈ sites) : s = t ∨ s.Precedes t ∨ t.Precedes s :=
  List.Pairwise.forall_of_forall_of_flip
    (R := fun s t : Site => s = t ∨ s.Precedes t ∨ t.Precedes s)
    (fun _ _ => .inl rfl) (h.ordered.imp fun h => .inr (.inl h))
    (h.ordered.imp fun h => .inr (.inr h)) hs ht

/-- One stretch of lines is in another exactly if the loops are nested. -/
theorem nested_iff (h : Laid o 0 0 code sites) (hs : s ∈ sites)
    (ht : t ∈ sites) :
    s.top ≤ t.top ∧ t.bottom ≤ s.bottom
      ↔ s.loop.address <+: t.loop.address := by
  have hlines := h.top_lt_bottom hs
  have hlines' := h.top_lt_bottom ht
  rcases h.precedes_or hs ht with rfl | hprecedes | hprecedes
  · exact iff_of_true ⟨Nat.le_refl _, Nat.le_refl _⟩ (List.prefix_refl _)
  · cases hprecedes with
    | inside haddress hproper htop hbottom =>
        exact iff_of_true ⟨by omega, by omega⟩ haddress
    | behind hleft hright hline => exact iff_of_false (by omega) hleft
  · cases hprecedes with
    | inside haddress hproper htop hbottom =>
        exact iff_of_false (by omega) hproper
    | behind hleft hright hline => exact iff_of_false (by omega) hright

/-- Where neither loop is in the other, their lines do not meet. -/
theorem apart (h : Laid o 0 0 code sites) (hs : s ∈ sites)
    (ht : t ∈ sites) (hleft : ¬ s.loop.address <+: t.loop.address)
    (hright : ¬ t.loop.address <+: s.loop.address) :
    s.bottom < t.top ∨ t.bottom < s.top := by
  rcases h.precedes_or hs ht with rfl | hprecedes | hprecedes
  · exact absurd (List.prefix_refl _) hleft
  · cases hprecedes with
    | inside haddress => exact absurd haddress hleft
    | behind _ _ hline => exact .inl hline
  · cases hprecedes with
    | inside haddress => exact absurd haddress hright
    | behind _ _ hline => exact .inr hline

end Laid

/-- The lines of programs that are added one after the other. -/
theorem Listing.lines_foldl_add (l : Listing) (ps : List Program) :
    (ps.foldl add l).lines = l.lines ++ units l.options l.loops ps := by
  induction ps generalizing l with
  | nil => exact (List.append_nil _).symm
  | cons p ps ih =>
      rw [List.foldl_cons, ih, units, ← List.append_assoc, add_lines,
        add_options, add_loops]

/-- Programs that are added to an empty listing make a text with labels
that are unique, jumps that lead to the two ends of their own loop, and
loops that are nested as they are in the programs. -/
theorem Listing.loopsLabelled (o : Options) (ps : List Program) :
    LoopsLabelled o ps (ps.foldl add { options := o }).lines
      (sitesOf o 0 0 0 ps) := by
  have hlaid : Laid o 0 0 (units o 0 ps) (sitesOf o 0 0 0 ps) :=
    laid_units 0 0 0 ps
  rw [lines_foldl_add]
  exact {
    loops := map_loop_sitesOf 0 0 0 ps
    numbers := by
      rw [hlaid.numbers, ← map_loop_sitesOf 0 0 0 ps, List.length_map]
    stands := fun s hs => hlaid.at_site hs
    top := fun s hs _ => hlaid.top_iff hs
    bottom := fun s hs _ => hlaid.bottom_iff hs
    labels := fun _ => hlaid.site_of_mem_labels
    skip := fun s hs _ => hlaid.skip_iff hs
    back := fun s hs _ => hlaid.back_iff hs
    jumps := fun _ _ => hlaid.jumpAt_of_jump
    nested := fun s hs t ht => hlaid.nested_iff hs ht
    apart := fun s hs t ht => hlaid.apart hs ht
    programs := fun s hs t ht hhead => by
      have hfrom := isFrom_of_mem_sitesOf hs
      obtain ⟨hleft, hright⟩ :=
        hfrom.not_nested (isFrom_of_mem_sitesOf ht) hhead
      exact hlaid.apart hs ht hleft hright
    names := fun _ _ _ => NamesLoop.not_mem_outerNames }

example : (sitesOf {} 0 0 0 [.loop (.loop .done .done) (.run .read 1
      (.loop .done .done)), .loop .done .done]).map
        (fun s => (s.loop.address, s.number, s.top, s.bottom))
    = [([0, 0], 1, 9, 20), ([0, 0, 0], 2, 13, 18), ([0, 2], 3, 23, 28),
      ([1, 0], 4, 42, 47)] := rfl

end TapeAsm.Asm
