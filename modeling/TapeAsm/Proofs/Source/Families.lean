/-
Scanners at work side by side. A family of scanners begins with one over
a text and grows by copies; each can be stepped, drained and moved by
hand, in any order. What a scanner hands out depends on what it has been
asked itself and on nothing else (`Family.getElem?_foldl_after`), and it
is what comes next among the tokens of the text, without a gap and
without a repetition (`Scanner.family_faithful`). Only the places of the
tokens follow the hand: they go on from where the scanner was put.

The statements are about a record that is kept of every scanner: where it
was made, what it has handed out since, and when it was moved last. What
carries them is that the number of tokens that have been handed out fixes
which characters are left (`Member.Follows`), also after a move, since a
move changes the place and nothing else. That is shown for a step and for
a move; draining is stepping to the end, and a copy stands where the
other one does.
-/
import TapeAsm.Proofs.Source.Printing
import TapeAsm.Proofs.Source.Stepping

namespace TapeAsm.Scanner

-- ============================================================= members

/-- A scanner of a family and what is on record of it. -/
structure Member where
  scanner : Scanner
  /-- How many tokens had been handed out when it was made, by those that
  it is a copy of. -/
  made : Nat := 0
  /-- The tokens that it has handed out since. -/
  handed : List Token := []
  /-- The place where it was last put by hand, itself or one that it is a
  copy of. -/
  placed : Position := .start
  /-- How many tokens had been handed out then. -/
  placedAt : Nat := 0

namespace Member

/-- How many tokens have been handed out, by those that a scanner is a
copy of and by itself. -/
def passed (m : Member) : Nat := m.made + m.handed.length

/-- A member behind a request to it. -/
def serve (m : Member) (r : Request) : Member :=
  let served := { m with
    scanner := m.scanner.serve r
    handed := m.handed ++ m.scanner.answer r }
  match r with
  | .place p => { served with placed := p, placedAt := m.passed }
  | _ => served

/-- A copy of a member, which has handed out nothing itself. -/
def copy (m : Member) : Member := { m with made := m.passed, handed := [] }

@[simp] theorem scanner_serve (m : Member) (r : Request) :
    (m.serve r).scanner = m.scanner.serve r := by
  cases r <;> rfl

@[simp] theorem handed_serve (m : Member) (r : Request) :
    (m.serve r).handed = m.handed ++ m.scanner.answer r := by
  cases r <;> rfl

@[simp] theorem passed_serve (m : Member) (r : Request) :
    (m.serve r).passed = m.passed + (m.scanner.answer r).length := by
  cases r <;> simp [passed, serve, Nat.add_assoc]

theorem serve_copy (m : Member) : m.serve .copy = m := by
  simp [serve, Scanner.serve, answer]

/-- A scanner that has handed out the end stays as it is. -/
theorem serve_of_finished {m : Member} (h : m.scanner.finished = true)
    {r : Request} (hr : r.isPlace = false) : m.serve r = m := by
  obtain ⟨hnext, hdrain⟩ := Scanner.serve_of_finished h
  cases r with
  | next => simp [serve, Scanner.serve, answer, hnext]
  | drain => simp [serve, Scanner.serve, answer, hdrain]
  | copy => exact m.serve_copy
  | place p => cases hr

/-- To drain a scanner is to step it and to drain it then. -/
theorem serve_drain (m : Member) :
    m.serve .drain = (m.serve .next).serve .drain := by
  cases hended : m.scanner.finished with
  | true => rw [serve_of_finished hended (r := .next) rfl]
  | false =>
      have hdrain := drain_eq_next m.scanner
      rw [next_eq hended] at hdrain
      simp only [serve, Scanner.serve, answer]
      rw [hdrain, next_eq hended]
      simp

end Member

-- ============================================================ families

/-- The scanners over a text, each by its number. -/
abbrev Family := List Member

/-- A request to one scanner of a family. -/
structure Step where
  number : Nat
  request : Request

/-- The family behind a step; a copy becomes its last member. Without a
scanner of that number nothing is done. -/
def Family.after (f : Family) (step : Step) : Family :=
  match f[step.number]? with
  | none => f
  | some m =>
    f.set step.number (m.serve step.request)
      ++ if step.request = .copy then [m.copy] else []

/-- The family over a source text after a number of steps. -/
def family (source : String) (steps : List Step) : Family :=
  steps.foldl Family.after [{ scanner := ofString source }]

/-- What the scanner with a number is asked for, step by step. -/
def requestsTo (number : Nat) (steps : List Step) : List Request :=
  (steps.filter fun step => step.number = number).map Step.request

-- ======================================================== faithfulness

namespace Member

/-- How many characters of the text have been read when as many tokens
have been handed out as a member has passed. -/
def read (source : String) (m : Member) : Nat :=
  Token.readUpTo (Token.scan source) m.passed

/-- How many characters had been read when a member was last put to a
place by hand. -/
def readBefore (source : String) (m : Member) : Nat :=
  Token.readUpTo (Token.scan source) m.placedAt

/-- A token of the text as a member hands it out: at the place that the
characters give which have been read since the member was put to a place
by hand. -/
def relocate (source : String) (m : Member) (token : Token) : Token where
  kind := token.kind
  position := m.placed.moved
    ((source.toList.take token.position.offset).drop (m.readBefore source))

/-- What holds of a scanner over a text. -/
structure Faithful (source : String) (m : Member) : Prop where
  /-- It has handed out tokens of the text in a row, but for their places,
  from where the one stood that it is a copy of. -/
  consecutive : m.handed.map Token.kind
    = (((Token.scan source).map Token.kind).drop m.made).take
        m.handed.length
  /-- The end is handed out once. -/
  once : m.handed.countP (fun token => token.kind = .endOfInput) ≤ 1
  /-- Behind the end, also one that was handed out before the scanner was
  made, nothing is handed out. -/
  silent :
    (∃ token ∈ m.handed, token.kind = .endOfInput)
      ∨ (Token.scan source).length ≤ m.made →
    m.scanner.next.1 = none ∧ m.scanner.drain.1 = []
  /-- Draining would hand out all the other tokens of the text. -/
  drained : m.scanner.drain.1
    = ((Token.scan source).drop m.passed).map (m.relocate source)
  /-- A step would hand out the first of them. -/
  stepped : m.scanner.next.1 = m.scanner.drain.1.head?
  /-- The place of the scanner itself is right behind what it has read. -/
  position : m.scanner.position = m.placed.moved
    ((source.toList.take (m.read source)).drop (m.readBefore source))

end Member

/-- What holds of a family of scanners over a text. -/
structure Family.Faithful (source : String) (f : Family) : Prop where
  each : ∀ m ∈ f, m.Faithful source
  /-- Whatever is asked of the family, each scanner does what it would do
  if only what is asked of itself were asked. -/
  alone : ∀ number m, f[number]? = some m → ∀ later : List Step,
    (later.foldl Family.after f)[number]?
      = some ((requestsTo number later).foldl Member.serve m)
  /-- A scanner that is moved by hand hands out tokens of the same kinds
  as one that is not. -/
  unmoved : ∀ m ∈ f, ∀ requests : List Request,
    (requests.foldl Member.serve m).handed.map Token.kind
      = ((requests.filter fun r => !r.isPlace).foldl
          Member.serve m).handed.map Token.kind

-- ======================================================== the invariant

/-- How a scanner stands to its text: the number of tokens that have been
handed out says what is left. -/
structure Member.Follows (source : String) (m : Member) : Prop where
  rest : m.scanner.rest = source.toList.drop (m.read source)
  position : m.scanner.position = m.placed.afterAll
    ((source.toList.take (m.read source)).drop (m.readBefore source))
  ahead : m.readBefore source ≤ m.read source
  within : m.scanner.finished = false →
    m.read source ≤ source.toList.length
  /-- If it had not been moved by hand, the scanner would drain the tokens
  that are left. -/
  left : (Token.scan source).drop m.passed
    = (m.scanner.serve (.place (Position.start.afterAll
        (source.toList.take (m.read source))))).drain.1
  consecutive : m.handed.map Token.kind
    = (((Token.scan source).map Token.kind).drop m.made).take
        m.handed.length

namespace Member.Follows

variable {source : String} {m : Member}

/-- A new scanner is at the start of its source. -/
theorem ofString : Follows source { scanner := ofString source } where
  rest := rfl
  position := rfl
  ahead := Nat.le_refl _
  within _ := Nat.zero_le _
  left := rfl
  consecutive := rfl

theorem copy (h : m.Follows source) : m.copy.Follows source where
  rest := h.rest
  position := h.position
  ahead := h.ahead
  within := h.within
  left := h.left
  consecutive := rfl

theorem place (h : m.Follows source) (p : Position) :
    (m.serve (.place p)).Follows source := by
  have hread : (m.serve (.place p)).read source = m.read source := by
    simp [read, answer]
  have hbefore : (m.serve (.place p)).readBefore source = m.read source :=
    rfl
  constructor
  · rw [hread]
    exact h.rest
  · rw [hread, hbefore, List.drop_take_self, Position.afterAll_nil]
    rfl
  · rw [hread, hbefore]
  · rw [hread]
    exact h.within
  · rw [hread, passed_serve]
    exact h.left
  · rw [handed_serve, answer, List.append_nil]
    exact h.consecutive

/-- The first token that is left: it stands behind the blanks, and what
is left behind it is left to the scanner a step on. -/
theorem exists_left (h : m.Follows source)
    (hopen : m.scanner.finished = false) :
    ∃ token, token.kind
          = .ofChar? m.scanner.rest[blanks m.scanner.rest]?
      ∧ token.position.offset = m.read source + blanks m.scanner.rest
      ∧ (Token.scan source).drop m.passed
        = token :: (m.scanner.next.2.serve (.place (Position.start.afterAll
            (source.toList.take (token.position.offset + 1))))).drain.1 := by
  have hrest := h.rest
  have hwithin := h.within hopen
  have hblanks := blanks_le_length m.scanner.rest
  have hoffset : ((Position.start.afterAll
        (source.toList.take (m.read source))).afterAll
      (m.scanner.rest.take (blanks m.scanner.rest))).offset
      = m.read source + blanks m.scanner.rest := by
    rw [Position.offset_afterAll, Position.offset_afterAll,
      List.length_take_of_le hwithin, List.length_take_of_le hblanks]
    exact congrArg (· + _) (Nat.zero_add _)
  have hbehind : (Position.start.afterAll
        (source.toList.take (m.read source))).afterAll
      (m.scanner.rest.take (blanks m.scanner.rest + 1))
      = Position.start.afterAll (source.toList.take
          (m.read source + blanks m.scanner.rest + 1)) := by
    rw [← Position.afterAll_append, Nat.add_assoc,
      List.take_add (l := source.toList), ← hrest]
  refine ⟨⟨.ofChar? m.scanner.rest[blanks m.scanner.rest]?,
    (Position.start.afterAll (source.toList.take (m.read source))).afterAll
      (m.scanner.rest.take (blanks m.scanner.rest))⟩, rfl, hoffset, ?_⟩
  have hunmoved := next_eq (s := m.scanner.serve (.place
    (Position.start.afterAll (source.toList.take (m.read source))))) hopen
  rw [h.left, drain_eq_next, hunmoved, next_eq hopen, hoffset, ← hbehind]
  rfl

theorem next (h : m.Follows source) : (m.serve .next).Follows source := by
  cases hended : m.scanner.finished with
  | true =>
      rw [serve_of_finished hended rfl]
      exact h
  | false =>
      obtain ⟨token, hkind, hoffset, hleft⟩ := h.exists_left hended
      have htoken : (Token.scan source)[m.passed]? = some token := by
        rw [← List.head?_drop, hleft]
        rfl
      have hanswer : (m.scanner.answer .next).map Token.kind
          = [token.kind] := by
        rw [answer, next_eq hended, hkind]
        rfl
      have hlength : (m.scanner.answer .next).length = 1 := by
        rw [← List.length_map (f := Token.kind), hanswer]
        rfl
      have hpassed : (m.serve .next).passed = m.passed + 1 := by
        rw [passed_serve, hlength]
      have hread : (m.serve .next).read source
          = m.read source + (blanks m.scanner.rest + 1) := by
        rw [read, hpassed, Token.readUpTo_succ htoken, hoffset,
          Nat.add_assoc]
      have hbefore : (m.serve .next).readBefore source
          = m.readBefore source := rfl
      have hwithin := h.within hended
      constructor
      · rw [hread, ← List.drop_drop, ← h.rest, scanner_serve,
          Scanner.serve, next_eq hended]
      · have hfront : m.readBefore source
            ≤ (source.toList.take (m.read source)).length := by
          rw [List.length_take_of_le hwithin]
          exact h.ahead
        rw [hread, hbefore, List.take_add,
          List.drop_append_of_le_length hfront, ← h.rest,
          Position.afterAll_append, scanner_serve, Scanner.serve,
          next_eq hended]
        show m.scanner.position.afterAll _ = _
        rw [h.position]
        rfl
      · rw [hread, hbefore]
        exact Nat.le_trans h.ahead (Nat.le_add_right ..)
      · intro hopen
        rw [scanner_serve, Scanner.serve, next_eq hended] at hopen
        have hlt := of_decide_eq_false hopen
        rw [h.rest, List.length_drop] at hlt
        rw [hread, h.rest]
        omega
      · rw [hpassed, ← List.tail_drop, hleft, hread, ← Nat.add_assoc,
          ← hoffset]
        rfl
      · have hkinds : (((Token.scan source).map Token.kind).drop
            m.made)[m.handed.length]? = some token.kind := by
          rw [List.getElem?_drop, List.getElem?_map]
          exact congrArg (Option.map Token.kind) htoken
        rw [handed_serve, List.map_append, hanswer, h.consecutive,
          List.length_append, hlength, List.take_add_one]
        exact congrArg (_ ++ ·) (congrArg Option.toList hkinds.symm)

theorem drain (h : m.Follows source) : (m.serve .drain).Follows source := by
  -- every step leaves fewer tokens to drain
  induction hleft : m.scanner.drain.1.length using Nat.strong_induction_on
    generalizing m with
  | _ left ih =>
      cases hended : m.scanner.finished with
      | true =>
          rw [serve_of_finished hended rfl]
          exact h
      | false =>
          have hfewer : (m.serve .next).scanner.drain.1.length < left := by
            rw [← hleft, drain_eq_next m.scanner, scanner_serve,
              Scanner.serve, next_eq hended]
            exact Nat.lt_succ_self _
          rw [serve_drain]
          exact ih _ hfewer h.next rfl

/-- Whatever a scanner is asked for, it goes on to follow its text. -/
theorem serve (h : m.Follows source) (r : Request) :
    (m.serve r).Follows source := by
  cases r with
  | next => exact h.next
  | drain => exact h.drain
  | copy =>
      rw [serve_copy]
      exact h
  | place p => exact h.place p

/-- What draining would hand out: what is left of the text's tokens. -/
theorem drained (h : m.Follows source) : m.scanner.drain.1
    = ((Token.scan source).drop m.passed).map (m.relocate source) := by
  rw [h.left]
  cases hended : m.scanner.finished with
  | true =>
      have hplaced : (m.scanner.serve (.place (Position.start.afterAll
          (source.toList.take (m.read source))))).finished = true := hended
      rw [(Scanner.serve_of_finished hended).2,
        (Scanner.serve_of_finished hplaced).2]
      rfl
  | false =>
      have hplaced : (m.scanner.serve (.place (Position.start.afterAll
          (source.toList.take (m.read source))))).finished = false := hended
      rw [drain_eq hended, drain_eq hplaced, h.position, h.rest,
        Token.scanFrom_moved h.ahead (h.within hended), ← h.rest]
      rfl

/-- As long as tokens are left, the end has not been handed out. -/
theorem length_le_passed (h : m.Follows source)
    (hend : ∃ token ∈ m.handed, token.kind = .endOfInput) :
    (Token.scan source).length ≤ m.passed := by
  by_contra hleft
  have hkinds := Token.kinds_scan source
  have hlength := congrArg List.length hkinds
  simp only [List.length_append, List.length_map, List.length_singleton]
    at hlength
  have hfront : ((Token.scan source).map Token.kind).take m.passed
      = ((inked source.toList).map TokenKind.ofChar).take m.passed := by
    rw [hkinds, List.take_append_of_le_length]
    rw [List.length_map]
    omega
  obtain ⟨token, htoken, hkind⟩ := hend
  have hmem : .endOfInput ∈ m.handed.map Token.kind :=
    List.mem_map.mpr ⟨token, htoken, hkind⟩
  rw [h.consecutive, List.take_drop] at hmem
  have hscanned : .endOfInput
      ∈ ((Token.scan source).map Token.kind).take m.passed :=
    List.mem_of_mem_drop hmem
  rw [hfront] at hscanned
  obtain ⟨c, -, hc⟩ := List.mem_map.mp (List.mem_of_mem_take hscanned)
  exact TokenKind.ofChar_ne_endOfInput c hc

/-- What follows a text is faithful to it. -/
theorem faithful (h : m.Follows source) : m.Faithful source where
  consecutive := h.consecutive
  once := by
    have hcount : ∀ tokens : List Token,
        tokens.countP (fun token => token.kind = .endOfInput)
          = (tokens.map Token.kind).count .endOfInput := by
      intro tokens
      rw [List.count, List.countP_map]
      rfl
    have honce := Token.countP_endOfInput_scanFrom .start source.toList
    rw [hcount] at honce
    rw [hcount, h.consecutive, ← honce]
    exact ((List.take_sublist ..).trans (List.drop_sublist ..)).count_le _
  silent hend := by
    have hle : (Token.scan source).length ≤ m.passed := by
      rcases hend with hend | hmade
      · exact h.length_le_passed hend
      · exact Nat.le_trans hmade (Nat.le_add_right ..)
    have hdrain : m.scanner.drain.1 = [] := by
      rw [h.drained, List.drop_eq_nil_of_le hle]
      rfl
    rw [next_eq_head?, hdrain]
    exact ⟨rfl, rfl⟩
  drained := h.drained
  stepped := next_eq_head? m.scanner
  position := h.position.trans (Position.afterAll_eq_moved ..)

end Member.Follows

-- ===================================================== members together

/-- A step counts for a scanner if it is about it. -/
theorem requestsTo_cons (number : Nat) (step : Step) (later : List Step) :
    requestsTo number (step :: later)
      = (if step.number = number then [step.request] else [])
          ++ requestsTo number later := by
  by_cases h : step.number = number
  · simp [requestsTo, h]
  · simp [requestsTo, h]

namespace Family

variable {source : String} {f : Family}

/-- Every step of a family keeps its members on the source. -/
theorem follows_after (h : ∀ m ∈ f, m.Follows source) (step : Step) :
    ∀ m ∈ f.after step, m.Follows source := by
  rw [after]
  split
  · exact h
  · next m hm =>
    have hfollows := h m (List.mem_of_getElem? hm)
    intro m' hm'
    rcases List.mem_append.mp hm' with hset | hcopy
    · rcases List.mem_or_eq_of_mem_set hset with hold | rfl
      · exact h m' hold
      · exact hfollows.serve step.request
    · split at hcopy
      · rw [List.mem_singleton.mp hcopy]
        exact hfollows.copy
      · cases hcopy

/-- A step leaves a scanner alone that it is not about. -/
theorem getElem?_after {number : Nat} {m : Member}
    (hm : f[number]? = some m) (step : Step) :
    (f.after step)[number]?
      = some (if step.number = number then m.serve step.request else m)
      := by
  obtain ⟨hlt, -⟩ := List.getElem?_eq_some_iff.mp hm
  rw [after]
  split
  · next hnone =>
    have hne : step.number ≠ number := by
      rintro rfl
      rw [hm] at hnone
      cases hnone
    rw [if_neg hne, hm]
  · next m' hm' =>
    rw [List.getElem?_append_left (by simpa using hlt), List.getElem?_set]
    split
    · next heq =>
      subst heq
      obtain rfl := Option.some.inj (hm.symm.trans hm')
      rw [if_pos (by simpa using hlt)]
    · exact hm

/-- What a scanner does is decided by what is asked of itself. -/
theorem getElem?_foldl_after {number : Nat} {m : Member}
    (hm : f[number]? = some m) (later : List Step) :
    (later.foldl after f)[number]?
      = some ((requestsTo number later).foldl Member.serve m) := by
  induction later generalizing f m with
  | nil => exact hm
  | cons step later ih =>
      rw [List.foldl_cons, ih (getElem?_after hm step), requestsTo_cons,
        List.foldl_append]
      split
      · rfl
      · rfl

end Family

/-- So do all its steps, by induction on them. -/
theorem follows_family (source : String) (steps : List Step) :
    ∀ m ∈ family source steps, m.Follows source := by
  have hrun : ∀ f : Family, (∀ m ∈ f, m.Follows source) →
      ∀ m ∈ steps.foldl Family.after f, m.Follows source := by
    induction steps with
    | nil => exact fun f h => h
    | cons step steps ih =>
        exact fun f h => ih _ (Family.follows_after h step)
  refine hrun _ fun m hm => ?_
  rw [List.mem_singleton.mp hm]
  exact .ofString

-- =============================================== moved and not moved

/-- Two scanners differ in their places at most, and so do the tokens that
they have handed out. -/
structure Member.SameKinds (m m' : Member) : Prop where
  rest : m.scanner.rest = m'.scanner.rest
  finished : m.scanner.finished = m'.scanner.finished
  handed : m.handed.map Token.kind = m'.handed.map Token.kind

namespace Member.SameKinds

variable {m m' : Member}

/-- A move changes only the place. -/
theorem place (h : m.SameKinds m') (p : Position) :
    (m.serve (.place p)).SameKinds m' := by
  refine ⟨h.rest, h.finished, ?_⟩
  rw [handed_serve, answer, List.append_nil]
  exact h.handed

theorem serve (h : m.SameKinds m') {r : Request} (hr : r.isPlace = false) :
    (m.serve r).SameKinds (m'.serve r) := by
  cases hended : m.scanner.finished with
  | true =>
      have hended' : m'.scanner.finished = true :=
        h.finished.symm.trans hended
      rw [serve_of_finished hended hr, serve_of_finished hended' hr]
      exact h
  | false =>
      have hended' : m'.scanner.finished = false :=
        h.finished.symm.trans hended
      have hhanded : (m.scanner.answer r).map Token.kind
            = (m'.scanner.answer r).map Token.kind →
          (m.serve r).handed.map Token.kind
            = (m'.serve r).handed.map Token.kind := by
        intro hanswer
        rw [handed_serve, handed_serve, List.map_append, List.map_append,
          h.handed, hanswer]
      cases r with
      | place p => cases hr
      | copy => exact ⟨h.rest, h.finished, hhanded rfl⟩
      | next =>
          refine ⟨?_, ?_, hhanded ?_⟩
          · simp only [scanner_serve, Scanner.serve]
            rw [next_eq hended, next_eq hended', h.rest]
          · simp only [scanner_serve, Scanner.serve]
            rw [next_eq hended, next_eq hended', h.rest]
          · simp only [answer]
            rw [next_eq hended, next_eq hended', h.rest]
            rfl
      | drain =>
          refine ⟨?_, ?_, hhanded ?_⟩
          · simp [Scanner.serve, Scanner.drain, hended, hended']
          · simp [Scanner.serve, Scanner.drain, hended, hended']
          · simp only [answer]
            rw [drain_eq hended, drain_eq hended', Token.kinds_scanFrom,
              Token.kinds_scanFrom, h.rest]

/-- To leave out the moves leaves the kinds as they are. -/
theorem foldl_filter (h : m.SameKinds m') (requests : List Request) :
    (requests.foldl Member.serve m).SameKinds
      ((requests.filter fun r => !r.isPlace).foldl Member.serve m') := by
  induction requests generalizing m m' with
  | nil => exact h
  | cons r requests ih =>
      cases hr : r.isPlace with
      | false =>
          rw [List.filter_cons_of_pos (by simp [hr])]
          exact ih (h.serve hr)
      | true =>
          rw [List.filter_cons_of_neg (by simp [hr])]
          cases r with
          | place p => exact ih (h.place p)
          | next => cases hr
          | drain => cases hr
          | copy => cases hr

end Member.SameKinds

-- =========================================================== the whole

/-- Scanners that go over one text, each at its own pace and some of them
copies of others, lose nothing and repeat nothing. -/
theorem family_faithful (source : String) (steps : List Step) :
    (family source steps).Faithful source where
  each m hm := (follows_family source steps m hm).faithful
  alone _ _ hm later := Family.getElem?_foldl_after hm later
  unmoved _ _ requests :=
    (Member.SameKinds.foldl_filter ⟨rfl, rfl, rfl⟩ requests).handed

end TapeAsm.Scanner
