/-
The lifecycle of a draft, under any interleaving of its workers and of the people who decide it.

A worker writes with one guarded UPDATE.  A person's action reads the row under a claim, writes
with a guarded UPDATE, and may read the row again; the statements of any number of actions
interleave.

* `Edge` — queued > drafted > published or rejected, and queued > parked > queued;
* `Follows` — what one step may do to a row;
* `Honest` — what the answer of an action says of the row;
* `draft_lifecycle` — every step follows the edges, no summary is published, and an approve or a
  reject that the row's end bears out is refused only when it came too early, or when another
  decision was recorded between its read and its write.
-/
import SmartFoodOps.Lib.Machine
import SmartFoodOps.Assistant.Content

open Machine

namespace Assistant.Drafts

open Generation (DraftStatus DraftRow FactValue)

/-! ### Rows -/

abbrev DraftId := String

/-- A row of `content_drafts`. -/
structure Row extends DraftRow where
  brandId : Option String
  publishedContent : Option String
  decidedBy : Option String
  deriving DecidableEq

/-- What a draft is asked for with. -/
structure Asked where
  restaurantId : String
  brandId : Option String
  kind : String
  targetId : Option String
  request : Option String
  subject : List (String × FactValue)
  deriving DecidableEq

/-- The row that `create` inserts. -/
def Asked.row (a : Asked) : Row where
  restaurantId := a.restaurantId
  brandId := a.brandId
  kind := a.kind
  targetId := a.targetId
  request := a.request
  subject := a.subject
  status := .queued
  content := none
  model := none
  error := none
  publishedContent := none
  decidedBy := none

structure Claim where
  restaurantId : Option String
  brandId : Option String
  deriving DecidableEq

def Claim.owns (claim : Claim) (row : Row) : Bool :=
  claim.restaurantId = some row.restaurantId ∨
    claim.brandId ≠ none ∧ claim.brandId = row.brandId

/-! ### Calls -/

inductive Call
  | complete (content model : String)
  | park (error : String)
  | approve (claim : Claim) (publishedContent decidedBy : String)
  | reject (claim : Claim) (decidedBy : String)
  | replay (claim : Claim)
  deriving DecidableEq

/-- What a call answers, or raises. -/
inductive Answer
  | moved (b : Bool)
  | row (row : Row)
  | done
  | notFound
  | wrongState (status action : String)
  deriving DecidableEq

/-- A call before one of its statements. -/
inductive Point
  /-- The scoped read. -/
  | read
  /-- The guarded UPDATE. -/
  | write
  /-- The read after the UPDATE, which matched the row or did not. -/
  | look (matched : Bool)
  | answered (answer : Answer)
  deriving DecidableEq

/-- The status that the UPDATE of a call is guarded on. -/
def Call.expected : Call → DraftStatus
  | complete .. | park _ => .queued
  | approve .. | reject .. => .drafted
  | replay _ => .parked

/-- What the UPDATE of a call sets. -/
def Call.values (row : Row) : Call → Row
  | complete content model =>
    { row with status := .drafted, content := some content, model := some model, error := none }
  | park error =>
    { row with status := .parked, error := some (String.ofList (error.toList.take 500)) }
  | approve _ publishedContent decidedBy =>
    { row with
      status := .published, publishedContent := some publishedContent,
      decidedBy := some decidedBy }
  | reject _ decidedBy => { row with status := .rejected, decidedBy := some decidedBy }
  | replay _ => { row with status := .queued, error := none }

/-- `DraftStore._move`. -/
def move (row : Option Row) (call : Call) : Option Row × Bool :=
  match row with
  | some r => if r.status = call.expected then (some (call.values r), true) else (some r, false)
  | none => (none, false)

/-- The statement a call begins with. -/
def Call.begin : Call → Point
  | complete .. | park _ => .write
  | approve .. | reject .. | replay _ => .read

/-- `DraftStore.get`, and what the call does with a row that is the caller's. -/
def get (claim : Claim) (row : Option Row) (next : Row → Point) : Point :=
  match row with
  | some r => if claim.owns r then next r else .answered .notFound
  | none => .answered .notFound

/-- What an approve makes of the row that it reads first. -/
def approving (publishedContent : String) (r : Row) : Point :=
  if r.status = .published ∧ r.publishedContent = some publishedContent then .answered (.row r)
  else if r.status ≠ .drafted then .answered (.wrongState r.status.value "approved")
  else if r.kind = "feedback_summary" then .answered (.wrongState r.kind "published")
  else .write

def rejecting (r : Row) : Point :=
  if r.status = .rejected then .answered .done
  else if r.status ≠ .drafted then .answered (.wrongState r.status.value "rejected")
  else .write

def replaying (r : Row) : Point :=
  if r.status ≠ .parked then .answered (.wrongState r.status.value "replayed") else .write

/-- After the first read. -/
def Call.read (row : Option Row) : Call → Point
  | complete .. | park _ => .write
  | approve claim publishedContent _ => get claim row (approving publishedContent)
  | reject claim _ => get claim row rejecting
  | replay claim => get claim row replaying

/-- After the UPDATE. -/
def Call.wrote (matched : Bool) : Call → Point
  | complete .. | park _ => .answered (.moved matched)
  | approve .. => .look matched
  | reject .. | replay _ => if matched then .answered .done else .look false

/-- After the last read. -/
def Call.look (row : Option Row) (matched : Bool) : Call → Point
  | complete .. | park _ => .answered (.moved matched)
  | approve claim _ _ =>
    get claim row fun r =>
      if matched then .answered (.row r) else .answered (.wrongState r.status.value "approved")
  | reject claim _ =>
    get claim row fun r => .answered (.wrongState r.status.value "rejected")
  | replay claim =>
    get claim row fun r => .answered (.wrongState r.status.value "replayed")

/-! ### The system -/

structure Proc where
  call : Call
  draft : DraftId
  point : Point
  /-- The status that the first read found. -/
  found : Option DraftStatus
  /-- The status that the UPDATE met. -/
  met : Option DraftStatus
  deriving DecidableEq

structure System where
  rows : DraftId → Option Row
  procs : List Proc

inductive Event
  | create (draft : DraftId) (asked : Asked)
  | start (call : Call) (draft : DraftId)
  | run (pid : ℕ)

def System.empty : System := ⟨fun _ => none, []⟩

def statusOf (row : Option Row) : Option DraftStatus := row.map fun r => r.status

/-- One statement of a call. -/
def Proc.step (p : Proc) (row : Option Row) : Option (Option Row × Proc) :=
  match p.point with
  | .read => some (row, { p with point := p.call.read row, found := statusOf row })
  | .write =>
    some ((move row p.call).1,
      { p with point := p.call.wrote (move row p.call).2, met := statusOf row })
  | .look matched => some (row, { p with point := p.call.look row matched })
  | .answered _ => none

def step (s : System) : Event → Option System
  | .create draft asked =>
    if s.rows draft = none then
      some { s with rows := Function.update s.rows draft (some asked.row) }
    else none
  | .start call draft => some { s with procs := s.procs ++ [⟨call, draft, call.begin, none, none⟩] }
  | .run pid =>
    match s.procs[pid]? with
    | none => none
    | some p =>
      (p.step (s.rows p.draft)).map fun q =>
        ⟨Function.update s.rows p.draft q.1, s.procs.set pid q.2⟩

/-! ### What a step may do to a row -/

/-- The moves of a draft. -/
def Edge : DraftStatus → DraftStatus → Prop
  | .queued, .drafted | .drafted, .published | .drafted, .rejected | .queued, .parked
  | .parked, .queued => True
  | _, _ => False

/-- A human has decided. -/
def Decided (r : Row) : Prop := r.status = .published ∨ r.status = .rejected

structure Follows (r r' : Row) : Prop where
  path : r'.status = r.status ∨ Edge r.status r'.status
  final : Decided r → r' = r
  content : r.status ≠ .queued → r.status ≠ .parked → r'.content = r.content
  /-- What the row is for does not change. -/
  subject : r'.restaurantId = r.restaurantId ∧ r'.brandId = r.brandId ∧ r'.kind = r.kind

theorem Follows.refl (r : Row) : Follows r r where
  path := .inl rfl
  final _ := rfl
  content _ _ := rfl
  subject := ⟨rfl, rfl, rfl⟩

theorem Follows.owns {r r' : Row} (h : Follows r r') (claim : Claim) :
    claim.owns r' = claim.owns r := by
  unfold Claim.owns
  rw [h.subject.1, h.subject.2.1]

/-- The UPDATE of a call, on the status that it is guarded on, is a move. -/
theorem follows_values {r : Row} {call : Call} (h : r.status = call.expected) :
    Follows r (call.values r) := by
  have hundecided : ¬ Decided r := by
    rintro (hd | hd) <;> rw [hd] at h <;> cases call <;> cases h
  refine ⟨.inr ?_, fun hd => absurd hd hundecided, fun hq hp => ?_, ?_⟩
  · rw [h]
    cases call <;> trivial
  · cases call with
    | complete | park => exact absurd h hq
    | approve | reject => rfl
    | replay => exact absurd h hp
  · cases call <;> exact ⟨rfl, rfl, rfl⟩

theorem follows_move {row : Option Row} {r : Row} (call : Call) (h : row = some r) :
    ∃ r', (move row call).1 = some r' ∧ Follows r r' := by
  subst h
  unfold move
  by_cases he : r.status = call.expected
  · exact ⟨call.values r, by simp only [if_pos he], follows_values he⟩
  · exact ⟨r, by simp only [if_neg he], .refl r⟩

/-- Whatever row there was follows. -/
def Evolves (row row' : Option Row) : Prop :=
  ∀ r, row = some r → ∃ r', row' = some r' ∧ Follows r r'

section

variable {s u : System} {e : Event}

/-- What a step can do: insert a row, start a call, or run one statement of a call. -/
theorem step_cases (h : step s e = some u) :
    (∃ (draft : DraftId) (asked : Asked), s.rows draft = none ∧
      u = { s with rows := Function.update s.rows draft (some asked.row) }) ∨
    (∃ (call : Call) (draft : DraftId), u = { s with procs := s.procs ++ [⟨call, draft, call.begin, none, none⟩] }) ∨
    (∃ pid p q, s.procs[pid]? = some p ∧ p.step (s.rows p.draft) = some q ∧
      u = ⟨Function.update s.rows p.draft q.1, s.procs.set pid q.2⟩) := by
  cases e with
  | create draft asked =>
    simp only [step] at h
    split at h
    · next hnone => cases h; exact .inl ⟨draft, asked, hnone, rfl⟩
    · cases h
  | start call draft => exact .inr (.inl ⟨call, draft, (Option.some.inj h).symm⟩)
  | run pid =>
    simp only [step] at h
    split at h
    · cases h
    · next p hp =>
      obtain ⟨q, hq, rfl⟩ := Option.map_eq_some_iff.mp h
      exact .inr (.inr ⟨pid, p, q, hp, hq, rfl⟩)

/-- The row after one statement of a call. -/
theorem Proc.step_row {p : Proc} {row : Option Row} {q : Option Row × Proc}
    (h : p.step row = some q) :
    q.1 = row ∨ p.point = .write ∧ q.1 = (move row p.call).1 := by
  unfold Proc.step at h
  split at h
  · cases h; exact .inl rfl
  · next hpoint => cases h; exact .inr ⟨hpoint, rfl⟩
  · cases h; exact .inl rfl
  · cases h

theorem Proc.step_call {p : Proc} {row : Option Row} {q : Option Row × Proc}
    (h : p.step row = some q) : q.2.call = p.call ∧ q.2.draft = p.draft := by
  unfold Proc.step at h
  split at h <;> cases h <;> exact ⟨rfl, rfl⟩

theorem evolves_of_step (h : step s e = some u) (d : DraftId) :
    Evolves (s.rows d) (u.rows d) := by
  intro r hr
  rcases step_cases h with ⟨draft, asked, hnone, rfl⟩ | ⟨call, draft, rfl⟩ |
    ⟨pid, p, q, -, hq, rfl⟩
  · have hd : d ≠ draft := by
      rintro rfl
      cases hnone.symm.trans hr
    exact ⟨r, (Function.update_of_ne hd _ _).trans hr, .refl r⟩
  · exact ⟨r, hr, .refl r⟩
  · by_cases hd : d = p.draft
    · subst hd
      show ∃ r', Function.update s.rows p.draft q.1 p.draft = some r' ∧ _
      rw [Function.update_self]
      rcases Proc.step_row hq with hrow | ⟨-, hrow⟩
      · exact ⟨r, hrow.trans hr, .refl r⟩
      · rw [hrow]
        exact follows_move p.call hr
    · exact ⟨r, (Function.update_of_ne hd _ _).trans hr, .refl r⟩

end

/-! ### What answers say -/

/-- The claim of a call that decides. -/
def Call.decider : Call → Option Claim
  | approve claim _ _ | reject claim _ => some claim
  | complete .. | park _ | replay _ => none

/-- The row ends up as the call would have it. -/
def Call.Borne (r : Row) : Call → Prop
  | approve _ publishedContent _ =>
    r.status = .published ∧ r.publishedContent = some publishedContent
  | reject .. => r.status = .rejected
  | complete .. | park _ | replay _ => False

/-- The row will not end up as the call would have it. -/
def Call.Never (r : Row) (call : Call) : Prop :=
  Decided r ∧ ¬ call.Borne r ∨
    r.kind = "feedback_summary" ∧ ∃ claim text who, call = .approve claim text who

/-- The first read found no draft, or one that was not drafted yet. -/
def Proc.Early (p : Proc) : Prop :=
  p.found = none ∨ p.found = some .queued ∨ p.found = some .parked

/-- The first read found the draft undecided, and the UPDATE met it decided by somebody else. -/
def Proc.Overtaken (p : Proc) : Prop :=
  p.found = some .drafted ∧ ∃ status, p.met = some status ∧ status ≠ .drafted

/-- What a call that decides knows of the row, at each of its points. -/
def Proc.Knows (p : Proc) (claim : Claim) (row : Option Row) : Point → Prop
  | .read => True
  | .write => p.found = some .drafted ∧ ∃ r, row = some r ∧ claim.owns r = true ∧
      (r.status = .drafted ∨ Decided r) ∧
      (r.kind = "feedback_summary" → ∃ who, p.call = .reject claim who)
  | .look true => (∃ text who, p.call = .approve claim text who) ∧
      ∃ r, row = some r ∧ claim.owns r = true ∧ p.call.Borne r
  | .look false => p.Overtaken ∧ ∃ r, row = some r ∧ claim.owns r = true
  | .answered (.row r) => row = some r ∧ p.call.Borne r
  | .answered .done => ∃ r, row = some r ∧ p.call.Borne r
  | .answered .notFound => p.found = none ∨ ∃ r, row = some r ∧ claim.owns r = false
  | .answered (.wrongState _ _) =>
    p.Early ∨ p.Overtaken ∨ ∃ r, row = some r ∧ p.call.Never r
  | .answered (.moved _) => True

theorem Call.Borne.decided {r : Row} {call : Call} (h : call.Borne r) : Decided r := by
  cases call with
  | approve => exact .inl h.1
  | reject => exact .inr h
  | complete | park | replay => exact h.elim

section

variable {p : Proc} {claim : Claim} {row row' : Option Row}

/-- What a call knows stays true while others move the row. -/
theorem Proc.Knows.evolves {point : Point} (h : p.Knows claim row point) (he : Evolves row row') :
    p.Knows claim row' point := by
  have hborne : ∀ {r}, row = some r → p.call.Borne r → row' = some r := by
    intro r hr hb
    obtain ⟨r', hr', hf⟩ := he r hr
    rwa [hf.final hb.decided] at hr'
  cases point with
  | read => trivial
  | write =>
    obtain ⟨hfound, r, hr, howns, hst, hkind⟩ := h
    obtain ⟨r', hr', hf⟩ := he r hr
    refine ⟨hfound, r', hr', by rw [hf.owns, howns], ?_, by rwa [hf.subject.2.2]⟩
    rcases hst with hst | hst
    · rcases hf.path with hp | hp
      · exact .inl (hp.trans hst)
      · rw [hst] at hp
        cases hs : r'.status <;> rw [hs] at hp
        · exact hp.elim
        · exact hp.elim
        · exact hp.elim
        · exact .inr (.inl hs)
        · exact .inr (.inr hs)
    · rw [hf.final hst]
      exact .inr hst
  | look matched =>
    cases matched with
    | true =>
      obtain ⟨hcall, r, hr, howns, hb⟩ := h
      exact ⟨hcall, r, hborne hr hb, howns, hb⟩
    | false =>
      obtain ⟨hover, r, hr, howns⟩ := h
      obtain ⟨r', hr', hf⟩ := he r hr
      exact ⟨hover, r', hr', by rw [hf.owns, howns]⟩
  | answered answer =>
    cases answer with
    | moved => trivial
    | row r => exact ⟨hborne h.1 h.2, h.2⟩
    | done =>
      obtain ⟨r, hr, hb⟩ := h
      exact ⟨r, hborne hr hb, hb⟩
    | notFound =>
      refine h.imp_right ?_
      rintro ⟨r, hr, howns⟩
      obtain ⟨r', hr', hf⟩ := he r hr
      exact ⟨r', hr', by rw [hf.owns, howns]⟩
    | wrongState =>
      refine h.imp_right (Or.imp_right ?_)
      rintro ⟨r, hr, hn⟩
      obtain ⟨r', hr', hf⟩ := he r hr
      refine ⟨r', hr', ?_⟩
      rcases hn with ⟨hd, hb⟩ | ⟨hk, hcall⟩
      · rw [hf.final hd]
        exact .inl ⟨hd, hb⟩
      · exact .inr ⟨by rw [hf.subject.2.2, hk], hcall⟩

theorem get_owned {claim : Claim} {r : Row} (h : claim.owns r = true) (next : Row → Point) :
    get claim (some r) next = next r := by
  simp [get, h]

theorem get_cases (claim : Claim) (row : Option Row) (next : Row → Point) :
    (row = none ∨ ∃ r, row = some r ∧ claim.owns r = false) ∧
        get claim row next = .answered .notFound ∨
      ∃ r, row = some r ∧ claim.owns r = true ∧ get claim row next = next r := by
  cases row with
  | none => exact .inl ⟨.inl rfl, rfl⟩
  | some r =>
    unfold get
    cases ho : claim.owns r with
    | true => exact .inr ⟨r, rfl, ho, by simp [ho]⟩
    | false => exact .inl ⟨.inr ⟨r, rfl, ho⟩, by simp [ho]⟩

/-- The first read. -/
theorem Proc.Knows.read (hcall : p.call.decider = some claim) :
    Proc.Knows { p with point := p.call.read row, found := statusOf row } claim row
      (p.call.read row) := by
  obtain ⟨call, draft, point, found, met⟩ := p
  have hearly : ∀ {r : Row}, row = some r → r.status ≠ .drafted → call.Never r ∨
      Proc.Early ⟨call, draft, call.read row, statusOf row, met⟩ ∨ call.Borne r := by
    rintro r rfl hst
    by_cases hb : call.Borne r
    · exact .inr (.inr hb)
    · cases hs : r.status with
      | queued => exact .inr (.inl (.inr (.inl (congrArg some hs))))
      | parked => exact .inr (.inl (.inr (.inr (congrArg some hs))))
      | drafted => exact absurd hs hst
      | published => exact .inl (.inl ⟨.inl hs, hb⟩)
      | rejected => exact .inl (.inl ⟨.inr hs, hb⟩)
  cases call with
  | complete | park | replay => cases hcall
  | approve claim' text who =>
    obtain rfl : claim' = claim := Option.some.inj hcall
    show Proc.Knows ⟨.approve claim' text who, draft, _, statusOf row, met⟩ claim' row
      (get claim' row (approving text))
    rcases get_cases claim' row (approving text) with ⟨hno, hget⟩ | ⟨r, hr, howns, hget⟩
    · rw [hget]
      exact hno.imp_left fun hnone => congrArg statusOf hnone
    · rw [hget]
      unfold approving
      split
      · next hb => exact ⟨hr, hb⟩
      · next hb =>
        split
        · next hst =>
          rcases hearly hr hst with hn | he | hb'
          · exact .inr (.inr ⟨r, hr, hn⟩)
          · exact .inl he
          · exact absurd hb' hb
        · next hst =>
          have hst : r.status = .drafted := not_not.mp hst
          split
          · next hk => exact .inr (.inr ⟨r, hr, .inr ⟨hk, claim', text, who, rfl⟩⟩)
          · next hk =>
            refine ⟨?_, r, hr, howns, .inl hst, fun h => absurd h hk⟩
            show statusOf row = some .drafted
            rw [hr]
            exact congrArg some hst
  | reject claim' who =>
    obtain rfl : claim' = claim := Option.some.inj hcall
    show Proc.Knows ⟨.reject claim' who, draft, _, statusOf row, met⟩ claim' row
      (get claim' row rejecting)
    rcases get_cases claim' row rejecting with ⟨hno, hget⟩ | ⟨r, hr, howns, hget⟩
    · rw [hget]
      exact hno.imp_left fun hnone => congrArg statusOf hnone
    · rw [hget]
      unfold rejecting
      split
      · next hb => exact ⟨r, hr, hb⟩
      · next hb =>
        split
        · next hst =>
          rcases hearly hr hst with hn | he | hb'
          · exact .inr (.inr ⟨r, hr, hn⟩)
          · exact .inl he
          · exact absurd hb' hb
        · next hst =>
          have hst : r.status = .drafted := not_not.mp hst
          refine ⟨?_, r, hr, howns, .inl hst, fun _ => ⟨who, rfl⟩⟩
          show statusOf row = some .drafted
          rw [hr]
          exact congrArg some hst

/-- The UPDATE. -/
theorem Proc.Knows.write (hcall : p.call.decider = some claim) (h : p.Knows claim row .write) :
    Proc.Knows { p with point := p.call.wrote (move row p.call).2, met := statusOf row } claim
      (move row p.call).1 (p.call.wrote (move row p.call).2) := by
  obtain ⟨call, draft, point, found, met⟩ := p
  obtain ⟨hfound, r, rfl, howns, hst, hkind⟩ := h
  have hexp : call.expected = .drafted := by
    cases call <;> first | rfl | cases hcall
  by_cases hd : r.status = .drafted
  · have hmove : move (some r) call = (some (call.values r), true) := by
      unfold move
      rw [hexp]
      simp only [if_pos hd]
    have howns' : claim.owns (call.values r) = true := by
      rw [(follows_values (hd.trans hexp.symm)).owns, howns]
    show Proc.Knows ⟨call, draft, call.wrote (move (some r) call).2, found, _⟩ claim
      (move (some r) call).1 (call.wrote (move (some r) call).2)
    rw [hmove]
    cases call with
    | complete | park | replay => cases hcall
    | approve claim' text who =>
      obtain rfl : claim' = claim := Option.some.inj hcall
      exact ⟨⟨text, who, rfl⟩, _, rfl, howns', rfl, rfl⟩
    | reject claim' who => exact ⟨_, rfl, rfl⟩
  · have hmove : move (some r) call = (some r, false) := by
      unfold move
      rw [hexp]
      simp only [if_neg hd]
    show Proc.Knows ⟨call, draft, call.wrote (move (some r) call).2, found, _⟩ claim
      (move (some r) call).1 (call.wrote (move (some r) call).2)
    rw [hmove]
    cases call with
    | complete | park | replay => cases hcall
    | approve | reject => exact ⟨⟨hfound, r.status, rfl, hd⟩, r, rfl, howns⟩

/-- The last read. -/
theorem Proc.Knows.look {matched : Bool} (hcall : p.call.decider = some claim)
    (h : p.Knows claim row (.look matched)) :
    Proc.Knows { p with point := p.call.look row matched } claim row
      (p.call.look row matched) := by
  obtain ⟨call, draft, point, found, met⟩ := p
  cases matched with
  | true =>
    obtain ⟨⟨text, who, rfl⟩, r, rfl, howns, hb⟩ := h
    show Proc.Knows ⟨.approve claim text who, draft, _, found, met⟩ claim (some r)
      (get claim (some r) fun r => .answered (.row r))
    rw [get_owned howns]
    exact ⟨rfl, hb⟩
  | false =>
    obtain ⟨hover, r, rfl, howns⟩ := h
    cases call with
    | complete | park | replay => cases hcall
    | approve claim' text who =>
      obtain rfl : claim' = claim := Option.some.inj hcall
      show Proc.Knows ⟨.approve claim' text who, draft, _, found, met⟩ claim' (some r)
        (get claim' (some r) fun r => .answered (.wrongState r.status.value "approved"))
      rw [get_owned howns]
      exact .inr (.inl hover)
    | reject claim' who =>
      obtain rfl : claim' = claim := Option.some.inj hcall
      show Proc.Knows ⟨.reject claim' who, draft, _, found, met⟩ claim' (some r)
        (get claim' (some r) fun r => .answered (.wrongState r.status.value "rejected"))
      rw [get_owned howns]
      exact .inr (.inl hover)

theorem Proc.Knows.step {q : Option Row × Proc} (hcall : p.call.decider = some claim)
    (h : p.Knows claim row p.point) (hq : p.step row = some q) :
    q.2.Knows claim q.1 q.2.point := by
  unfold Proc.step at hq
  split at hq
  · cases hq
    exact .read hcall
  · next hpoint =>
    cases hq
    rw [hpoint] at h
    exact .write hcall h
  · next hpoint =>
    cases hq
    rw [hpoint] at h
    exact .look hcall h
  · cases hq

end

/-! ### The lifecycle -/

structure Inv (s : System) : Prop where
  summary {d : DraftId} {r : Row} :
    s.rows d = some r → r.kind = "feedback_summary" → r.status ≠ .published
  knows {p : Proc} {claim : Claim} :
    p ∈ s.procs → p.call.decider = some claim → p.Knows claim (s.rows p.draft) p.point

theorem inv_empty : Inv .empty where
  summary h := by cases h
  knows h := by cases h

section

variable {s u : System} {e : Event}

/-- A row that is published was drafted and approved. -/
theorem published_of_move {row : Option Row} {r : Row} {call : Call}
    (h : (move row call).1 = some r) (hst : r.status = .published) :
    row = some r ∨ (∃ claim text who, call = .approve claim text who) ∧
      ∃ r₀, row = some r₀ ∧ r₀.kind = r.kind := by
  cases row with
  | none => cases h
  | some r₀ =>
    unfold move at h
    by_cases he : r₀.status = call.expected
    · simp only [if_pos he] at h
      obtain rfl := Option.some.inj h
      cases call with
      | approve claim text who => exact .inr ⟨⟨claim, text, who, rfl⟩, r₀, rfl, rfl⟩
      | complete | park | reject | replay => cases hst
    · simp only [if_neg he] at h
      exact .inl h

/-- **One step** keeps the invariant. -/
theorem Inv.step (hi : Inv s) (h : step s e = some u) : Inv u := by
  have hev := evolves_of_step h
  rcases step_cases h with ⟨draft, asked, hnone, rfl⟩ | ⟨call, draft, rfl⟩ |
    ⟨pid, p, q, hp, hq, rfl⟩
  · refine ⟨fun {d r} hr hk => ?_, fun hm hcall => (hi.knows hm hcall).evolves (hev _)⟩
    by_cases hd : d = draft
    · subst hd
      cases (Function.update_self ..).symm.trans hr
      simp [Asked.row]
    · exact hi.summary ((Function.update_of_ne hd _ _).symm.trans hr) hk
  · refine ⟨hi.summary, fun {p claim} hm hcall => ?_⟩
    rcases List.mem_append.mp hm with hm | hm
    · exact hi.knows hm hcall
    · cases List.mem_singleton.mp hm
      cases call with
      | approve | reject => trivial
      | complete | park | replay => cases hcall
  · have hmem := List.mem_of_getElem? hp
    have hother : ∀ {p' claim}, p' ∈ s.procs → p'.call.decider = some claim →
        p'.Knows claim (Function.update s.rows p.draft q.1 p'.draft) p'.point :=
      fun hm hcall => (hi.knows hm hcall).evolves (hev _)
    refine ⟨fun {d r} hr hk hst => ?_, fun {p' claim} hm hcall => ?_⟩
    · by_cases hd : d = p.draft
      · subst hd
        have hr : Function.update s.rows p.draft q.1 p.draft = some r := hr
        rw [Function.update_self] at hr
        rcases Proc.step_row hq with hrow | ⟨hpoint, hrow⟩
        · exact hi.summary (hrow.symm.trans hr) hk hst
        · rcases published_of_move (hrow.symm.trans hr) hst with
            hrow | ⟨⟨claim, text, who, hcall⟩, r₀, hr₀, hkind⟩
          · exact hi.summary hrow hk hst
          · -- an approve writes a row that is no summary
            have hdecider : p.call.decider = some claim := by rw [hcall]; rfl
            have hknows := hi.knows hmem hdecider
            rw [hpoint] at hknows
            obtain ⟨-, r₁, hr₁, -, -, hsummary⟩ := hknows
            cases hr₀.symm.trans hr₁
            obtain ⟨who', hreject⟩ := hsummary (hkind.trans hk)
            cases hcall.symm.trans hreject
      · exact hi.summary ((Function.update_of_ne hd _ _).symm.trans hr) hk hst
    · rcases List.mem_or_eq_of_mem_set hm with hm | rfl
      · exact hother hm hcall
      · obtain ⟨hsame, hdraft⟩ := Proc.step_call hq
        have hcall : p.call.decider = some claim := hsame ▸ hcall
        show q.2.Knows claim (Function.update s.rows p.draft q.1 q.2.draft) q.2.point
        rw [hdraft, Function.update_self]
        exact (hi.knows hmem hcall).step hcall hq

/-- The invariant holds in every reachable state. -/
theorem inv_of_run {ok : System → Event → Prop} {es : List Event}
    (h : Run step ok .empty es s) : Inv s :=
  h.invariant inv_empty fun _ _ _ hi _ hs => hi.step hs

/-- The call was refused: its draft is not found, or is in a wrong state. -/
def Point.refused : Point → Bool
  | .answered .notFound | .answered (.wrongState _ _) => true
  | _ => false

/-- What holds of a call that decides, of the draft that it decides. -/
structure Honest (s : System) (p : Proc) (r : Row) : Prop where
  /-- The row that a successful approve returns is published with the caller's text. -/
  returned {claim : Claim} {text who : String} {answer : Row} :
    p.call = .approve claim text who → p.point = .answered (.row answer) →
      answer = r ∧ answer.status = .published ∧ answer.publishedContent = some text
  /-- A decision that the row's end bears out is refused for one of these reasons only. -/
  refused {claim : Claim} :
    p.call.decider = some claim → claim.owns r = true → p.call.Borne r →
      p.point.refused = true → p.Early ∨ p.Overtaken

/-- **Draft lifecycle.** -/
structure Lifecycle (s : System) : Prop where
  /-- A draft begins queued, and each step follows the edges. -/
  follows {e : Event} {u : System} {d : DraftId} {r' : Row} :
    step s e = some u → u.rows d = some r' →
      s.rows d = none ∧ r'.status = .queued ∨ ∃ r, s.rows d = some r ∧ Follows r r'
  /-- Rows are kept. -/
  kept {e : Event} {u : System} {d : DraftId} {r : Row} :
    step s e = some u → s.rows d = some r → ∃ r', u.rows d = some r' ∧ Follows r r'
  summary {d : DraftId} {r : Row} :
    s.rows d = some r → r.kind = "feedback_summary" → r.status ≠ .published
  honest {p : Proc} {r : Row} : p ∈ s.procs → s.rows p.draft = some r → Honest s p r

theorem Inv.honest {p : Proc} {r : Row} (hi : Inv s) (hp : p ∈ s.procs)
    (hr : s.rows p.draft = some r) : Honest s p r := by
  constructor
  · intro claim text who answer hcall hpoint
    have hdecider : p.call.decider = some claim := by rw [hcall]; rfl
    have hk := hi.knows hp hdecider
    rw [hpoint] at hk
    obtain ⟨hrow, hb⟩ := hk
    rw [hcall] at hb
    exact ⟨Option.some.inj (hrow.symm.trans hr), hb⟩
  · intro claim hcall howns hb hrefused
    have hk := hi.knows hp hcall
    cases hpoint : p.point with
    | read | write | look => rw [hpoint] at hrefused; cases hrefused
    | answered answer =>
      rw [hpoint] at hk hrefused
      cases answer with
      | moved | row | done => cases hrefused
      | notFound =>
        rcases hk with hk | ⟨r', hr', hno⟩
        · exact .inl (.inl hk)
        · cases hr.symm.trans hr'
          cases howns.symm.trans hno
      | wrongState =>
        rcases hk with hk | hk | ⟨r', hr', hn⟩
        · exact .inl hk
        · exact .inr hk
        · cases hr.symm.trans hr'
          rcases hn with ⟨-, hn⟩ | ⟨hkind, claim', text, who, hcall'⟩
          · exact absurd hb hn
          · rw [hcall'] at hb
            exact absurd hb.1 (hi.summary hr hkind)

/-- **Every reachable state** has the lifecycle's properties. -/
theorem draft_lifecycle {es : List Event} (h : Run step Always .empty es s) : Lifecycle s := by
  have hi := inv_of_run h
  refine ⟨fun {e u d r'} hs hr' => ?_, fun {e u d r} hs hr => evolves_of_step hs d r hr,
    hi.summary, hi.honest⟩
  rcases Option.eq_none_or_eq_some (s.rows d) with hnone | ⟨r, hr⟩
  · refine .inl ⟨hnone, ?_⟩
    rcases step_cases hs with ⟨draft, asked, -, rfl⟩ | ⟨call, draft, rfl⟩ |
      ⟨pid, p, q, -, hq, rfl⟩
    · by_cases hd : d = draft
      · subst hd
        have hr' : Function.update s.rows d (some asked.row) d = some r' := hr'
        rw [Function.update_self] at hr'
        cases hr'
        rfl
      · cases hnone.symm.trans ((Function.update_of_ne hd _ _).symm.trans hr')
    · cases hnone.symm.trans hr'
    · by_cases hd : d = p.draft
      · subst hd
        have hr' : Function.update s.rows p.draft q.1 p.draft = some r' := hr'
        rw [Function.update_self] at hr'
        rcases Proc.step_row hq with hrow | ⟨-, hrow⟩
        · cases hnone.symm.trans (hrow.symm.trans hr')
        · rw [hnone] at hrow
          cases hrow.symm.trans hr'
      · cases hnone.symm.trans ((Function.update_of_ne hd _ _).symm.trans hr')
  · obtain ⟨r'', hr'', hf⟩ := evolves_of_step hs d r hr
    cases hr''.symm.trans hr'
    exact .inr ⟨r, hr, hf⟩

end

/-! ### The workers' writes -/

/-- A guarded UPDATE of a job, on the part of the row that the job knows. -/
theorem generation_move_eq (row : Option Row) (call : Call) {change : DraftRow → DraftRow}
    (h : ∀ r : Row, change r.toDraftRow = (call.values r).toDraftRow) :
    Generation.move call.expected change (row.map Row.toDraftRow) =
      .ret (.ok (move row call).2, (move row call).1.map Row.toDraftRow) := by
  cases row with
  | none => rfl
  | some r =>
    by_cases he : r.status = call.expected
    · have hmove : move (some r) call = (some (call.values r), true) := by
        unfold move
        exact if_pos he
      rw [hmove]
      show (if r.status = call.expected then _ else _ : Generation.Plane Bool) _ = _
      rw [if_pos he]
      show Interaction.Prog.ret (Except.ok true, some (change r.toDraftRow)) = _
      rw [h]
      rfl
    · have hmove : move (some r) call = (some r, false) := by
        unfold move
        exact if_neg he
      rw [hmove]
      show (if r.status = call.expected then _ else _ : Generation.Plane Bool) _ = _
      rw [if_neg he]
      rfl

/-- What a job writes with its answer is the UPDATE of `complete`. -/
theorem completeDraft_eq (row : Option Row) (content model : String) :
    Generation.completeDraft content model (row.map Row.toDraftRow) =
      .ret (.ok (move row (.complete content model)).2,
        (move row (.complete content model)).1.map Row.toDraftRow) :=
  generation_move_eq row (.complete content model) fun _ => rfl

/-- What a job writes when it has failed is the UPDATE of `park`. -/
theorem park_eq (row : Option Row) (error : String) :
    Generation.park error (row.map Row.toDraftRow) =
      .ret (.ok (), (move row (.park error)).1.map Row.toDraftRow) := by
  have hmove : Generation.move .queued (fun r : DraftRow =>
      { r with status := .parked, error := some (String.ofList (error.toList.take 500)) })
        (row.map Row.toDraftRow) = _ := generation_move_eq row (.park error) fun _ => rfl
  show (Generation.move .queued _ (row.map Row.toDraftRow)).bind _ = _
  rw [hmove]
  rfl

/-! ### Runs -/

def theDraft : Asked := ⟨"r1", none, "menu_item", some "i1", none, []⟩

def theOwner : Claim := ⟨some "r1", none⟩

/-- A draft is written, and approved. -/
def approval : List Event :=
  [.create "d" theDraft, .start (.complete "copy" "m") "d", .run 0,
    .start (.approve theOwner "text" "u") "d", .run 1, .run 1, .run 1]

theorem draft_lifecycle_approval : ∃ s, Run step Always .empty approval s ∧
    statusOf (s.rows "d") = some .published ∧ Lifecycle s := by
  obtain ⟨s, hs, hp⟩ : ∃ s, Run step Always .empty approval s ∧
      decide (statusOf (s.rows "d") = some .published) = true := exists_run_of_execOk (by decide)
  exact ⟨s, hs, of_decide_eq_true hp, draft_lifecycle hs⟩

/-- Two approves of the same text read the row before either writes it. -/
def twoApproves : List Event :=
  [.create "d" theDraft, .start (.complete "copy" "m") "d", .run 0,
    .start (.approve theOwner "text" "u") "d", .start (.approve theOwner "text" "u'") "d",
    .run 1, .run 2, .run 1, .run 2, .run 2]

/-- The second is refused, though the text that it brings is the one that is published. -/
theorem approve_refused :
    ¬ ∀ (es : List Event) (s : System), Run step Always .empty es s → ∀ p ∈ s.procs, ∀ r claim,
      s.rows p.draft = some r → p.call.decider = some claim → claim.owns r = true →
        p.call.Borne r → p.point.refused = false := by
  intro h
  obtain ⟨s, hs, hp⟩ : ∃ s, Run step Always .empty twoApproves s ∧
      decide ((s.rows "d").any (fun r => r.status = .published ∧
          r.publishedContent = some "text" ∧ theOwner.owns r = true) = true ∧
        (⟨.approve theOwner "text" "u'", "d", .answered (.wrongState "published" "approved"),
          some .drafted, some .published⟩ : Proc) ∈ s.procs) = true :=
    exists_run_of_execOk (by decide)
  obtain ⟨hrow, hmem⟩ := of_decide_eq_true hp
  obtain ⟨r, hr, hfacts⟩ := (Option.any_eq_true _ _).mp hrow
  obtain ⟨hst, htext, howns⟩ := of_decide_eq_true hfacts
  have hno := h _ s hs _ hmem r theOwner hr rfl howns ⟨hst, htext⟩
  cases hno

end Assistant.Drafts
