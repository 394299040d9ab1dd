/-
The rules of the branches, in every interleaving of creations.

* `Won`, `adopts_winner` — a call that meets a committed row answers it;
* `Proc.Sound`, `Contested`, `contested_step` — the invariant of the calls in progress;
* `BranchRules` — one brand for an owner, distinct labels, one metadata row for a branch;
  `branchRules_of_regular` — these are consequences of the constraints;
* `Undisturbed`, `Counted` — no other creation of a branch is committed between a count of the
  siblings and its commit, and what the count then says;
* `capped_step` — the cap holds as long as the counts do;
* `branchStructure_of_run` — all of them, after every undisturbed run.
-/
import SmartFoodOps.Catalog.Branches
import SmartFoodOps.Lib.Overlap

open Keyed Program Machine

namespace Catalog

variable {zone : String} {purposeOf : ℕ → Purpose} {db db' : Db} {ws : List Write} {call : Call}

/-! ### Adopting the winner -/

/-- The answer is the committed row that the call would have duplicated. -/
def Won (db : Db) (r : Restaurant) : Call → Prop
  | .createRestaurant owner _ _ _ _ _ => ∃ row cuisines, Row.restaurant row ∈ db ∧
      row.kind = .brand ∧ row.ownerUserId = owner ∧ r = restaurantOf row none cuisines
  | .createBranch brandId label _ _ => ∃ row m cuisines, Row.restaurant row ∈ db ∧
      Row.branchMetadata m ∈ db ∧ m.restaurantId = row.id ∧ m.brandId = brandId ∧
        m.branchLabel = label ∧ r = restaurantOf row (some m) cuisines
  | _ => False

theorem Won.grows {r : Restaurant} (h : Won db r call) (hg : Grows db db') : Won db' r call := by
  cases call with
  | createRestaurant =>
    obtain ⟨row, cuisines, hrow, hrest⟩ := h
    exact ⟨row, cuisines, hg (.restaurant row) trivial hrow, hrest⟩
  | createBranch =>
    obtain ⟨row, m, cuisines, hrow, hm, hrest⟩ := h
    exact ⟨row, m, cuisines, hg (.restaurant row) trivial hrow, hg (.branchMetadata m) trivial hm,
      hrest⟩
  | _ => exact h.elim

/-- A program that adopts the winner, while other creations commit: it raises nothing. -/
abbrev Adopting (purposeOf : ℕ → Purpose) (call : Call) (p : Session (Option Restaurant))
    (db : Db) : Prop :=
  Beside (Drawn purposeOf) Write.apply Grows (Regular purposeOf) (fun _ _ w => w = [])
    (fun _ => False) p (fun db r _ => ∃ x, r = some x ∧ Won db x call) db []

theorem brandOfOwner_ne_none {owner : String} {x : RestaurantRow} (hx : .restaurant x ∈ db)
    (hkind : x.kind = .brand) (howner : x.ownerUserId = owner) : db.brandOfOwner owner ≠ none := by
  intro hnone
  have hno := List.find?_eq_none.mp hnone x (List.mem_filterMap.mpr ⟨_, hx, rfl⟩)
  exact hno (by simp [hkind, howner])

/-- The restaurant that a metadata row describes is there. -/
theorem restaurant_of_metadata (hI : Regular purposeOf db) {m : BranchMetadata}
    (hm : .branchMetadata m ∈ db) :
    ∃ row, .restaurant row ∈ db ∧ row.id = m.restaurantId ∧ row.kind = .branch := by
  obtain ⟨x, hx, hk⟩ := reference_there hI hm List.mem_cons_self
  cases x with
  | restaurant row =>
    have hid : row.id = m.restaurantId := Key.restaurant.inj hk
    refine ⟨row, hx, hid, ?_⟩
    have hp : purposeOf row.id = .branch m.brandId := by
      rw [hid]
      exact (hI.typed _ hm).1
    have ht : Row.Typed purposeOf (.restaurant row) := hI.typed _ hx
    cases hkind : row.kind with
    | brand =>
      simp only [Row.Typed, hkind, hp] at ht
      cases ht
    | branch => rfl
  | _ => cases hk

/-- **A call that has met a committed row adopts it.** -/
theorem adopts_winner (hI : Regular purposeOf db) (h : Winner db call) :
    Adopting purposeOf call (adopt call) db := by
  cases call with
  | createRestaurant owner name place cuisines timezone label =>
    obtain ⟨x, hx, hkind, howner⟩ := h
    refine beside_bind Grows.refl (growing_select (fun _ => rfl) fun db₁ hg₁ hI₁ db₂ hg₂ hI₂ => ?_) hI
    split
    · next hnone =>
      exact absurd hnone (brandOfOwner_ne_none (hg₁ (.restaurant x) trivial hx) hkind howner)
    · next winner hw =>
      obtain ⟨hmem, hwkind, hwowner⟩ := mem_of_brandOfOwner hw
      refine beside_bind Grows.refl (racing_read hI₂ (fun _ => rfl)
        (.inr ⟨winner, hg₂ (.restaurant winner) trivial hmem, rfl⟩)
        fun db₃ row metadata cuisines hg₃ hI₃ hrow hid hmeta _ => ?_) hI₂
      intro db₄ hg₄ hI₄
      have hsame : Row.restaurant row = .restaurant winner :=
        Table.eq_of_key hrow ((hg₂.trans hg₃) (.restaurant winner) trivial hmem)
          (congrArg Key.restaurant hid)
      cases hsame
      -- a brand has no metadata
      have hnone : metadata = none := by
        rcases metadata with _ | m
        · rfl
        · obtain ⟨hm, hmid⟩ := hmeta m rfl
          obtain ⟨row', hrow', hid', hkind'⟩ := restaurant_of_metadata hI₃ hm
          have hsame : Row.restaurant row' = .restaurant winner :=
            Table.eq_of_key hrow' hrow (congrArg Key.restaurant (hid'.trans hmid))
          cases hsame
          rw [hwkind] at hkind'
          cases hkind'
      subst hnone
      exact ⟨_, rfl, winner, cuisines, hg₄ (.restaurant winner) trivial hrow, hwkind, hwowner, rfl⟩
  | createBranch brandId label place timezone =>
    obtain ⟨m, hm, hb, hl⟩ := h
    refine beside_bind Grows.refl (growing_select (fun _ => rfl) fun db₁ hg₁ hI₁ db₂ hg₂ hI₂ => ?_) hI
    split
    · next hnone =>
      have hm₁ : Row.branchMetadata m ∈ db₁ := hg₁ (.branchMetadata m) trivial hm
      obtain ⟨row, hrow, hid, -⟩ := restaurant_of_metadata hI₁ hm₁
      have hmem : m ∈ db₁.branches brandId :=
        mem_branches.mpr ⟨hm₁, hb, row, restaurant_eq_some.mpr ⟨hrow, hid⟩⟩
      exact absurd (decide_eq_true hl) (List.find?_eq_none.mp hnone m hmem)
    · next winner hw =>
      obtain ⟨hmem, hwb, hwl⟩ := mem_of_branchByLabel hw
      obtain ⟨row', hrow', hid', -⟩ := restaurant_of_metadata hI₁ hmem
      refine beside_bind Grows.refl (racing_read hI₂ (fun _ => rfl)
        (.inr ⟨row', hg₂ (.restaurant row') trivial hrow', hid'⟩)
        fun db₃ row metadata cuisines hg₃ hI₃ hrow hid hmeta hsome => ?_) hI₂
      intro db₄ hg₄ hI₄
      have hmem₃ : Row.branchMetadata winner ∈ db₃ :=
        (hg₂.trans hg₃) (.branchMetadata winner) trivial hmem
      have hkind : row.kind = .branch := by
        obtain ⟨row₃, hrow₃, hid₃, hkind₃⟩ := restaurant_of_metadata hI₃ hmem₃
        have hsame : Row.restaurant row₃ = .restaurant row :=
          Table.eq_of_key hrow₃ hrow (congrArg Key.restaurant (hid₃.trans hid.symm))
        cases hsame
        exact hkind₃
      obtain ⟨m', rfl⟩ := Option.ne_none_iff_exists'.mp (hsome hkind)
      obtain ⟨hm', hmid'⟩ := hmeta m' rfl
      have hsame : Row.branchMetadata m' = .branchMetadata winner :=
        Table.eq_of_key hm' hmem₃ (congrArg Key.branchMetadata hmid')
      cases hsame
      exact ⟨_, rfl, row, winner, cuisines, hg₄ (.restaurant row) trivial hrow,
        hg₄ (.branchMetadata winner) trivial hm', hid.symm, hwb, hwl, rfl⟩
  | _ => exact h.elim

/-! ### The calls in progress -/

theorem Minted.houses {edits staged : List Write} (h : Minted call edits)
    (hstaged : ∀ w ∈ staged, w.Quiet) : Houses (edits ++ staged) :=
  h.1.append (houses_of_not_founds fun w hw => (hstaged w hw).not_founds)

namespace Race

variable {n : ℕ} {s t : System n} {e : Event n}

/-- What holds of a call in progress. -/
def Proc.Sound (purposeOf : ℕ → Purpose) (db : Db) : Proc → Prop
  | idle => True
  | running call p edits => Opened purposeOf db edits ∧
      Racing purposeOf call p (Ended call) db edits
  | publishing call _ edits p staged => Opened purposeOf db (edits ++ staged) ∧
      Minted call edits ∧ (∀ w ∈ staged, w.Quiet) ∧
        Ensures (Drawn purposeOf) (Db.Typed purposeOf) Write.Quiet p (fun _ _ => True) staged
  | adopting call _ p => Adopting purposeOf call p db

/-- The transactions of two calls that are in progress do not wait for each other. -/
def Apart (ws ws' : List Write) : Prop := ∀ w ∈ ws, ∀ w' ∈ ws', ¬ Clash w w'

/-- An answer with `created=False` is the row that won; a call that has lost gives one. -/
def Reply.Fair (db : Db) (reply : Reply) : Prop :=
  match reply.outcome with
  | .created _ | .raised _ => reply.lost = false
  | .existing r => Won db r reply.call
  | .failed => False

/-- **The invariant of the creations.** -/
structure Contested (purposeOf : ℕ → Purpose) (s : System n) : Prop where
  db : Regular purposeOf s.db
  procs : ∀ pid, (s.procs pid).Sound purposeOf s.db
  apart : ∀ p q, p ≠ q → Apart (s.procs p).writes (s.procs q).writes
  replies : ∀ reply ∈ s.replies, reply.Fair s.db

theorem Apart.symm {ws ws' : List Write} (h : Apart ws ws') : Apart ws' ws := by
  rintro w hw w' hw' (hk | ⟨hne, he⟩)
  · exact h w' hw' w hw (.inl hk.symm)
  · exact h w' hw' w hw (.inr ⟨he ▸ hne, he.symm⟩)

theorem Proc.Sound.beside {proc : Proc} {B : List Write} (h : proc.Sound purposeOf db)
    (hB : Opened purposeOf db B) (hapart : Apart proc.writes B) :
    proc.Sound purposeOf (applyWrites B db) := by
  have htrans : ∀ a b c : Db, Grows a b → Grows b c → Grows a c := fun _ _ _ => Grows.trans
  cases proc with
  | idle => trivial
  | running call p edits => exact ⟨h.1.beside hB hapart, h.2.moved htrans hB.grows⟩
  | publishing call target edits p staged => exact ⟨h.1.beside hB hapart, h.2⟩
  | adopting call lost p => exact Beside.moved htrans h hB.grows

theorem Reply.Fair.grows {reply : Reply} (h : reply.Fair db) (hg : Grows db db') :
    reply.Fair db' := by
  unfold Reply.Fair at h ⊢
  split at h
  · exact h
  · exact h
  · exact h.grows hg
  · exact h

section

variable {pid : Fin n} {proc : Proc}

theorem procs_set_self : (s.set pid proc).procs pid = proc := Function.update_self ..

theorem procs_set_of_ne {q : Fin n} (h : q ≠ pid) : (s.set pid proc).procs q = s.procs q :=
  Function.update_of_ne h ..

/-- One call goes on; what it has written since, nobody else has touched. -/
theorem Contested.set (h : Contested purposeOf s) (hproc : proc.Sound purposeOf s.db)
    (hapart : ∀ q, q ≠ pid → Apart proc.writes (s.procs q).writes) :
    Contested purposeOf (s.set pid proc) where
  db := h.db
  procs q := by
    rcases eq_or_ne q pid with rfl | hq
    · rw [procs_set_self]
      exact hproc
    · rw [procs_set_of_ne hq]
      exact h.procs q
  apart p q hne := by
    rcases eq_or_ne p pid with rfl | hp
    · rw [procs_set_self, procs_set_of_ne hne.symm]
      exact hapart q hne.symm
    · rw [procs_set_of_ne hp]
      rcases eq_or_ne q pid with rfl | hq
      · rw [procs_set_self]
        exact (hapart p hp).symm
      · rw [procs_set_of_ne hq]
        exact h.apart p q hne
  replies := h.replies

theorem Contested.reply {call : Call} {lost : Bool} {outcome : Outcome}
    (h : Contested purposeOf s) (hfair : (Reply.mk call lost outcome).Fair s.db) :
    Contested purposeOf (s.reply pid call lost outcome) := by
  have hset : Contested purposeOf (s.set pid .idle) := h.set trivial fun _ _ _ hw => by cases hw
  exact { hset with replies := List.forall_mem_cons.mpr ⟨hfair, h.replies⟩ }

theorem apart_append {ws w : List Write} (h : ∀ q, q ≠ pid → Apart ws (s.procs q).writes)
    (hfree : s.Free pid w) : ∀ q, q ≠ pid → Apart (ws ++ w) (s.procs q).writes := by
  intro q hq x hx
  rcases List.mem_append.mp hx with hx | hx
  · exact h q hq x hx
  · exact hfree q hq x hx

/-- The statements of a publication meet no constraint. -/
theorem accepts_quiet {ws : List Write} (h : ∀ w ∈ ws, w.Quiet) : Accepts ws db := by
  induction ws generalizing db with
  | nil => trivial
  | cons w ws ih =>
    obtain ⟨hw, hrest⟩ := List.forall_mem_cons.mp h
    refine ⟨?_, ih hrest⟩
    unfold Write.Quiet at hw
    split at hw
    · trivial
    · exact ⟨fun _ hk => absurd hk List.not_mem_nil, fun _ _ hne => absurd rfl hne⟩
    · exact hw.elim

/-- The commit of a transaction that nobody is waiting for. -/
theorem Contested.commit {ws : List Write} (h : Contested purposeOf s)
    (hopened : Opened purposeOf s.db ws) (hhouses : Houses ws)
    (hapart : ∀ q, Apart (s.procs q).writes ws) :
    Contested purposeOf { s with db := applyWrites ws s.db } where
  db := ⟨typed_applyWrites hopened.typed h.db.typed, hopened.valid,
    h.db.housed.apply hopened.typed hhouses⟩
  procs q := (h.procs q).beside hopened (hapart q)
  apart := h.apart
  replies reply hr := (h.replies reply hr).grows hopened.grows

end

theorem contested_empty : Contested purposeOf (System.empty : System n) where
  db := regular_empty
  procs _ := trivial
  apart _ _ _ _ hw := by cases hw
  replies _ hr := by cases hr

/-- **Every step keeps the invariant.** -/
theorem contested_step (h : Contested purposeOf s) (hstep : step zone purposeOf s e = some t) :
    Contested purposeOf t := by
  have htrans : ∀ a b c : Db, Grows a b → Grows b c → Grows a c := fun _ _ _ => Grows.trans
  have hothers : ∀ {pid : Fin n} {proc : Proc}, s.procs pid = proc →
      ∀ q, q ≠ pid → Apart proc.writes (s.procs q).writes := by
    rintro pid proc rfl q hq
    exact h.apart pid q hq.symm
  cases step_cases hstep with
  | start hidle hcreates =>
    exact h.set ⟨opened_nil h.db.valid, racing_body hcreates h.db⟩ fun _ _ _ hw => by cases hw
  | aborts => exact h.set trivial fun _ _ _ hw => by cases hw
  | raises => exact h.reply rfl
  | @finds pid u call edits hproc =>
    have hp := h.procs pid
    rw [hproc] at hp
    have hwinner : Winner s.db call := hp.2 s.db (Grows.refl _) h.db
    exact h.set (adopts_winner h.db hwinner) fun _ _ _ hw => by cases hw
  | @publishes pid u call target edits hproc =>
    have hp := h.procs pid
    rw [hproc] at hp
    have hminted : Minted call edits := hp.2 s.db (Grows.refl _) h.db
    have hpublish : Within purposeOf Write.Quiet (publish target.restaurant target.event)
        fun _ => True := within_publish _ _
    refine h.set ⟨?_, hminted, List.forall_mem_nil _, ?_⟩ ?_
    · rw [List.append_nil]
      exact hp.1
    · exact ((hpublish [] (List.forall_mem_nil _)).weaken fun _ hw => hw.2).mono
        fun _ _ _ => trivial
    · show ∀ q, q ≠ pid → Apart (edits ++ []) _
      rw [List.append_nil]
      exact hothers hproc
  | @edits pid u call p p' edits w facts hproc ha hfree haccepts =>
    have hp := h.procs pid
    rw [hproc] at hp
    obtain ⟨hw, hrest⟩ := hp.2.advance htrans (Grows.refl _) h.db ha
    refine h.set ⟨?_, hrest⟩ (apart_append (hothers hproc) hfree)
    rcases hw with rfl | hfair
    · rw [List.append_nil]
      exact hp.1
    · obtain ⟨hmints, htyped, hfresh, -⟩ := hfair hp.1
      exact hp.1.append hmints htyped hfresh haccepts
  | @loses pid u call p p' edits w facts hproc ha hrefused =>
    have hp := h.procs pid
    rw [hproc] at hp
    obtain ⟨hw, -⟩ := hp.2.advance htrans (Grows.refl _) h.db ha
    rcases hw with rfl | hfair
    · exact absurd trivial hrefused
    · exact h.set (adopts_winner h.db ((hfair hp.1).winner hrefused)) fun _ _ _ hw => by cases hw
  | @stages pid u call target edits staged w p p' facts hproc ha hfree haccepts =>
    have hp := h.procs pid
    rw [hproc] at hp
    obtain ⟨hopened, hminted, hquiet, hpublish⟩ := hp
    obtain ⟨hw, hrest⟩ := hpublish.advance (typed_applyWrites hopened.typed h.db.typed) ha
    refine h.set ⟨?_, hminted, forall_append hquiet hw, hrest⟩ ?_
    · rw [← List.append_assoc]
      refine hopened.append (fun x hx => (hw x hx).mints) (fun x hx => (hw x hx).typed) ?_ haccepts
      intro row hrow hf
      have hq : (Write.insert row).Quiet := hw _ hrow
      cases row <;> first | exact hf.elim | exact hq.elim
    · show ∀ q, q ≠ pid → Apart (edits ++ (staged ++ w)) _
      rw [← List.append_assoc]
      exact apart_append (hothers hproc) hfree
  | @trips pid u call target edits staged w p p' facts hproc ha hrefused =>
    have hp := h.procs pid
    rw [hproc] at hp
    obtain ⟨hopened, -, -, hpublish⟩ := hp
    obtain ⟨hw, -⟩ := hpublish.advance (typed_applyWrites hopened.typed h.db.typed) ha
    exact absurd (accepts_quiet hw) hrefused
  | @commits pid u call target edits staged affected hproc =>
    have hp := h.procs pid
    rw [hproc] at hp
    obtain ⟨hopened, hminted, hquiet, -⟩ := hp
    have hreply : Contested purposeOf (s.reply pid call false (.created target.restaurant)) :=
      h.reply rfl
    refine hreply.commit hopened (hminted.houses hquiet) fun q => ?_
    rcases eq_or_ne q pid with rfl | hq
    · show Apart ((s.set q .idle).procs q).writes _
      rw [procs_set_self]
      exact fun _ hw => by cases hw
    · show Apart ((s.set pid .idle).procs q).writes _
      rw [procs_set_of_ne hq]
      exact (hothers hproc q hq).symm
  | @adopts pid u call lost p p' w facts hproc ha =>
    have hp := h.procs pid
    rw [hproc] at hp
    obtain ⟨hw, hrest⟩ := Beside.advance htrans hp (Grows.refl _) h.db ha
    obtain rfl : w = [] := hw.elim id id
    exact h.set hrest fun _ _ _ hw => by cases hw
  | @answers pid u call lost p outcome hproc hanswers =>
    have hp := h.procs pid
    rw [hproc] at hp
    cases hanswers with
    | existing =>
      obtain ⟨r, hr, hwon⟩ := hp s.db (Grows.refl _) h.db
      cases hr
      exact h.reply hwon
    | failed =>
      obtain ⟨r, hr, -⟩ := hp s.db (Grows.refl _) h.db
      cases hr
    | raised => exact hp.elim

end Race

/-! ### The rules -/

/-- The rules that constraints back. -/
structure BranchRules (db : Db) : Prop where
  oneBrand : ∀ x y, Row.restaurant x ∈ db → Row.restaurant y ∈ db → x.kind = .brand →
    y.kind = .brand → x.ownerUserId = y.ownerUserId → x = y
  labels : ∀ m m', Row.branchMetadata m ∈ db → Row.branchMetadata m' ∈ db →
    m.brandId = m'.brandId → m.branchLabel = m'.branchLabel → m = m'
  metadata : ∀ x, Row.restaurant x ∈ db → x.kind = .branch →
    ∃ m, Row.branchMetadata m ∈ db ∧ m.restaurantId = x.id ∧
      (∀ m', Row.branchMetadata m' ∈ db → m'.restaurantId = x.id → m' = m) ∧
        ∃ y, Row.restaurant y ∈ db ∧ y.id = m.brandId ∧ y.kind = .brand

/-- No brand has more branches than `MAX_BRANCHES`. -/
def Capped (db : Db) : Prop := ∀ b, (db.branches b).length ≤ maxBranches

/-- **The structure of the branches.** -/
structure BranchStructure (db : Db) : Prop extends BranchRules db where
  capped : Capped db

theorem brand_of_metadata (hI : Regular purposeOf db) {m : BranchMetadata}
    (hm : .branchMetadata m ∈ db) : ∃ y, .restaurant y ∈ db ∧ y.id = m.brandId ∧ y.kind = .brand := by
  obtain ⟨x, hx, hk⟩ := reference_there hI hm (List.mem_cons_of_mem _ (List.mem_singleton_self _))
  cases x with
  | restaurant y =>
    have hid : y.id = m.brandId := Key.restaurant.inj hk
    refine ⟨y, hx, hid, ?_⟩
    have hp : purposeOf y.id = .brand := by
      rw [hid]
      exact (hI.typed _ hm).2
    have ht : Row.Typed purposeOf (.restaurant y) := hI.typed _ hx
    cases hkind : y.kind with
    | brand => rfl
    | branch =>
      simp only [Row.Typed, hkind, hp] at ht
      obtain ⟨b, hb, -⟩ := ht
      cases hb
  | _ => cases hk

theorem branchRules_of_regular (hI : Regular purposeOf db) : BranchRules db where
  oneBrand x y hx hy hxk hyk ho := by
    have hunique : ∀ z : RestaurantRow, z.kind = .brand →
        (Row.restaurant z).unique = some (.inl z.ownerUserId) := fun z hz => by
      simp [Row.unique, hz]
    have hsame : Row.restaurant x = .restaurant y := by
      refine hI.valid.unique _ hx _ hy ?_ ?_
      · rw [hunique x hxk]
        exact Option.some_ne_none _
      · rw [hunique x hxk, hunique y hyk, ho]
    exact Row.restaurant.inj hsame
  labels m m' hm hm' hb hl := by
    have he : (Row.branchMetadata m).unique = (Row.branchMetadata m').unique := by
      simp [Row.unique, hb, hl]
    exact Row.branchMetadata.inj (hI.valid.unique _ hm _ hm' (by rintro ⟨⟩) he)
  metadata x hx hk := by
    obtain ⟨m, hm, hid⟩ := hI.housed x hx hk
    refine ⟨m, hm, hid, fun m' hm' hid' => ?_, brand_of_metadata hI hm⟩
    exact Row.branchMetadata.inj
      (Table.eq_of_key hm' hm (congrArg Key.branchMetadata (hid'.trans hid.symm)))

/-! ### The cap -/

theorem nodup_branches (b : RestaurantId) : (db.branches b).Nodup :=
  (Table.nodup_select (tells_branches _)).filter _

/-- The branches of a brand, after a transaction that inserts one metadata row. -/
theorem branches_after {m m' : BranchMetadata} {b : RestaurantId} (hI : Regular purposeOf db)
    (hmints : ∀ w ∈ ws, w.Mints) (hm : ∀ m', .insert (.branchMetadata m') ∈ ws → m' = m)
    (h : m' ∈ (applyWrites ws db).branches b) :
    m' ∈ db.branches b ∨ m' = m ∧ m.brandId = b := by
  obtain ⟨hmem, hb, -⟩ := mem_branches.mp h
  rcases mints_back_all hmints hmem with hold | hins
  · obtain ⟨row, hrow, hid, -⟩ := restaurant_of_metadata hI hold
    exact .inl (mem_branches.mpr ⟨hold, hb, row, restaurant_eq_some.mpr ⟨hrow, hid⟩⟩)
  · obtain rfl := hm m' hins
    exact .inr ⟨rfl, hb⟩

theorem length_branches_after {m : BranchMetadata} {b : RestaurantId} (hI : Regular purposeOf db)
    (hmints : ∀ w ∈ ws, w.Mints) (hm : ∀ m', .insert (.branchMetadata m') ∈ ws → m' = m) :
    ((applyWrites ws db).branches b).length ≤
      (db.branches b).length + if m.brandId = b then 1 else 0 := by
  split
  · have hsub : (applyWrites ws db).branches b ⊆ m :: db.branches b := by
      intro m' hm'
      rcases branches_after hI hmints hm hm' with hold | ⟨rfl, -⟩
      · exact List.mem_cons_of_mem _ hold
      · exact List.mem_cons_self
    exact (List.subperm_of_subset (nodup_branches b) hsub).length_le
  · next hne =>
    have hsub : (applyWrites ws db).branches b ⊆ db.branches b := fun m' hm' =>
      (branches_after hI hmints hm hm').resolve_right fun h => hne h.2
    exact (List.subperm_of_subset (nodup_branches b) hsub).length_le

/-- A brand that is not there has no branches. -/
theorem branches_of_new {b : RestaurantId} (hI : Regular purposeOf db)
    (hnone : db.find (.restaurant b) = none) : db.branches b = [] := by
  refine List.eq_nil_iff_forall_not_mem.mpr fun m hm => ?_
  obtain ⟨hmem, rfl, -⟩ := mem_branches.mp hm
  obtain ⟨y, hy, hid, -⟩ := brand_of_metadata hI hmem
  exact Table.find_eq_none.mp hnone _ hy (congrArg Key.restaurant hid)

namespace Race

variable {n : ℕ} {s t : System n} {e : Event n}

/-- The brand that a call creates a branch of. -/
def brandOf : Call → List RestaurantId
  | .createBranch brandId _ _ _ => [brandId]
  | _ => []

/-- The brand of a branch that is committed. -/
def branched (s : System n) : Event n → List RestaurantId
  | .run pid _ =>
    match s.procs pid with
    | .publishing call _ _ (.ret _) _ => brandOf call
    | _ => []
  | _ => []

def watch : Watch (System n) (Event n) (Fin n) RestaurantId where
  begins _ := fun
    | .start pid _ => some pid
    | _ => none
  runs := fun
    | .run pid _ => some pid
    | _ => none
  commits := branched

/-- Between the `get_branches` of a `create_branch`, its fourth statement, and its commit no other
`create_branch` of the brand commits. -/
def Undisturbed (w : Watched (System n) (Fin n) RestaurantId) : Event n → Prop
  | .run pid u => ∀ b ∈ branched w.state (.run pid u), ¬ w.Since pid 4 b
  | _ => True

instance (w : Watched (System n) (Fin n) RestaurantId) (e : Event n) :
    Decidable (Undisturbed w e) := by
  unfold Undisturbed
  split <;> infer_instance

/-- The brand has room for one more branch, or somebody has created one. -/
def Room (crossed : Prop) (brandId : RestaurantId) (db : Db) : Prop :=
  crossed ∨ (db.branches brandId).length < maxBranches

/-- A `create_branch` that has counted: it creates nothing, or there was room. -/
def Counted (purposeOf : ℕ → Purpose) (crossed : Prop) (brandId : RestaurantId)
    (p : Session (Option Target)) (ws : List Write) (db : Db) : Prop :=
  Ensures (Drawn purposeOf) (fun _ => True) (fun _ => True) p (fun target _ => target = none) ws ∨
    Room crossed brandId db

/-- A `create_branch` before or after its fourth statement. -/
def Counting (purposeOf : ℕ → Purpose) (w : Watched (System n) (Fin n) RestaurantId) (pid : Fin n) :
    Proc → Prop
  | .running call p edits => ∀ b ∈ brandOf call,
      After Write.apply (Drawn purposeOf) (fun target => target = none)
        (Counted purposeOf (w.Since pid 4 b) b) (4 - w.ran pid) p edits w.state.db
  | .publishing call _ _ _ _ => ∀ b ∈ brandOf call,
      4 ≤ w.ran pid ∧ Room (w.Since pid 4 b) b w.state.db
  | _ => True

/-- **The count**: a `create_branch` goes on only if there is room. -/
theorem after_createBranch {crossed : Prop} {brandId : RestaurantId} {label : String}
    {place : Place} {timezone : Option String} {db : Db} :
    After Write.apply (Drawn purposeOf) (fun target => target = none)
      (Counted purposeOf crossed brandId) 4 (createBranch zone brandId label place timezone) []
        db := by
  intro db₁ b w hb
  cases hb
  change After _ _ _ _ 3 _ _ _
  simp only [Prog.bind]
  split
  · trivial
  split
  · trivial
  intro db₂ b w hb
  cases hb
  change After _ _ _ _ 2 _ _ _
  simp only [Prog.pure_eq, Prog.bind]
  split
  · trivial
  intro db₃ b w hb
  cases hb
  change After _ _ _ _ 1 _ _ _
  simp only [Prog.bind]
  split
  · rfl
  intro db₄ b w hb
  cases hb
  change Counted _ _ _ _ _ _
  simp only [Prog.bind, List.append_nil, applyAll_nil]
  split
  · exact .inl trivial
  · next hroom => exact .inr (.inr (Nat.lt_of_not_le hroom))

/-- The branches of a brand after a commit: one more if the call creates one of this brand, or the
first one of a brand that is new. -/
theorem branches_commit (h : Contested purposeOf s) {pid : Fin n} {call : Call} {target : Target}
    {edits staged : List Write} {affected : List RestaurantId}
    (hproc : s.procs pid = .publishing call target edits (.ret affected) staged) (b : RestaurantId) :
    ((applyWrites (edits ++ staged) s.db).branches b).length ≤ 1 ∨
      ((applyWrites (edits ++ staged) s.db).branches b).length ≤
        (s.db.branches b).length + if b ∈ brandOf call then 1 else 0 := by
  have hp := h.procs pid
  rw [hproc] at hp
  obtain ⟨hopened, ⟨-, m, -, hm, hbrand⟩, hquiet, -⟩ := hp
  have hm : ∀ m', .insert (.branchMetadata m') ∈ edits ++ staged → m' = m := by
    intro m' hm'
    rcases List.mem_append.mp hm' with hm' | hm'
    · exact hm m' hm'
    · exact (hquiet _ hm').elim
  have hlength := length_branches_after (b := b) h.db hopened.mints hm
  cases call with
  | createBranch brandId label place timezone =>
    refine .inr (hlength.trans (Nat.add_le_add_left ?_ _))
    have hbrand : m.brandId = brandId := hbrand
    rw [hbrand]
    by_cases hb : brandId = b
    · simp [brandOf, hb]
    · simp [hb]
  | _ =>
    obtain ⟨x, hx, hid⟩ := hbrand
    by_cases hb : m.brandId = b
    · have hnew := hopened.fresh (.restaurant x) (List.mem_append_left _ hx) trivial
      have hnone : s.db.branches b = [] := branches_of_new h.db (hb ▸ hid ▸ hnew)
      rw [hnone, if_pos hb] at hlength
      exact .inl hlength
    · rw [if_neg hb] at hlength
      exact .inr (hlength.trans (Nat.le_add_right _ _))

variable {w w' : Watched (System n) (Fin n) RestaurantId}

theorem capped_step (h : Contested purposeOf w.state) (hcap : Capped w.state.db)
    (hc : ∀ pid, Counting purposeOf w pid (w.state.procs pid)) (hok : Undisturbed w e)
    (hstep : step zone purposeOf w.state e = some t) : Capped t.db := by
  cases step_cases hstep with
  | @commits pid u call target edits staged affected hproc =>
    intro b
    rcases branches_commit h hproc b with hone | hlength
    · exact hone.trans (by decide)
    · refine hlength.trans ?_
      split
      · next hb =>
        have hroom := hc pid
        rw [hproc] at hroom
        simp only [Undisturbed, branched, hproc] at hok
        exact (hroom b hb).2.resolve_left (hok b hb)
      · exact hcap b
  | _ => exact hcap

/-- A call that waits, while others move: there is room as long as nobody creates a branch. -/
theorem Counting.waits {pid : Fin n} {proc : Proc} (h : Counting purposeOf w pid proc)
    (hran : w'.ran pid = w.ran pid) (hsince : ∀ b, w.Since pid 4 b → w'.Since pid 4 b)
    (hroom : ∀ b, 4 ≤ w.ran pid → (w.state.db.branches b).length < maxBranches →
      w'.Since pid 4 b ∨ (w'.state.db.branches b).length < maxBranches) :
    Counting purposeOf w' pid proc := by
  cases proc with
  | idle | adopting => trivial
  | running call p edits =>
    intro b hb
    have hp := h b hb
    rw [hran]
    refine hp.waits (fun _ _ _ hc => hc.imp_right (Or.imp_left (hsince b))) fun hfour hc => ?_
    rcases hc with hnone | hcrossed | hlt
    · exact .inl hnone
    · exact .inr (.inl (hsince b hcrossed))
    · exact .inr (hroom b hfour hlt)
  | publishing call target edits p staged =>
    intro b hb
    obtain ⟨hfour, hcrossed | hlt⟩ := h b hb
    · exact ⟨hran ▸ hfour, .inl (hsince b hcrossed)⟩
    · exact ⟨hran ▸ hfour, hroom b hfour hlt⟩

/-- The party of an event. -/
def Event.pid : Event n → Fin n
  | .start pid _ | .run pid _ | .abort pid => pid

/-- There is room until somebody creates a branch. -/
theorem room_step (h : Contested purposeOf s) (hstep : step zone purposeOf s e = some t)
    {b : RestaurantId} (hlt : (s.db.branches b).length < maxBranches) :
    b ∈ branched s e ∨ (t.db.branches b).length < maxBranches := by
  cases step_cases hstep with
  | @commits pid u call target edits staged affected hproc =>
    simp only [branched, hproc]
    by_cases hb : b ∈ brandOf call
    · exact .inl hb
    · refine .inr ?_
      rcases branches_commit h hproc b with hone | hlength
      · exact lt_of_le_of_lt hone (by decide)
      · rw [if_neg hb] at hlength
        exact lt_of_le_of_lt hlength hlt
  | _ => exact .inr hlt

/-- The other calls stay where they are. -/
theorem procs_of_step (hstep : step zone purposeOf s e = some t) {pid : Fin n}
    (hpid : pid ≠ e.pid) : t.procs pid = s.procs pid := by
  cases step_cases hstep <;> exact procs_set_of_ne (s := s) hpid

/-- **One step of the counts, by another call.** -/
theorem counting_beside (h : Contested purposeOf w.state) {pid : Fin n}
    (hc : Counting purposeOf w pid (w.state.procs pid)) (hpid : pid ≠ e.pid)
    (hstep : watch.watched (step zone purposeOf) w e = some w') :
    Counting purposeOf w' pid (w'.state.procs pid) := by
  have hs := Watch.step_of_watched hstep
  have hmoves : watch.begins w.state e ≠ some pid ∧ watch.runs e ≠ some pid := by
    cases e with
    | start q call => exact ⟨fun hb => hpid (Option.some.inj hb).symm, nofun⟩
    | run q u => exact ⟨nofun, fun hr => hpid (Option.some.inj hr).symm⟩
    | abort q => exact ⟨nofun, nofun⟩
  obtain ⟨hran, hsince⟩ := Watch.waits_of_watched hstep hmoves.1 hmoves.2
  rw [procs_of_step hs hpid]
  refine hc.waits hran (fun b hb => (hsince 4 b).mpr (.inl hb)) fun b hfour hlt => ?_
  exact (room_step h hs hlt).imp_left fun hb => (hsince 4 b).mpr (.inr ⟨hfour, hb⟩)

/-- **One step of the counts, by the call itself.** -/
theorem counting_self (hc : Counting purposeOf w e.pid (w.state.procs e.pid))
    (hstep : watch.watched (step zone purposeOf) w e = some w') :
    Counting purposeOf w' e.pid (w'.state.procs e.pid) := by
  have hcases := step_cases (Watch.step_of_watched hstep)
  have hruns : ∀ pid u, e = .run pid u → w'.ran pid = w.ran pid + 1 ∧
      ∀ b, w'.Since pid 4 b ↔ w.Since pid 4 b := by
    rintro pid u rfl
    obtain ⟨hran, hsince⟩ := Watch.runs_of_watched hstep nofun rfl
    exact ⟨hran, hsince 4⟩
  generalize ht : w'.state = t at hcases
  cases hcases with
  | @start pid call hidle hcreates =>
    obtain ⟨hran, -⟩ := Watch.begins_of_watched hstep rfl
    simp only [Event.pid, procs_set_self]
    intro b hb
    rw [hran]
    cases call with
    | createBranch brandId label place timezone =>
      obtain rfl := List.mem_singleton.mp hb
      exact after_createBranch
    | _ => cases hb
  | @publishes pid u call target edits hproc =>
    obtain ⟨hran, hsince⟩ := hruns pid u rfl
    simp only [Event.pid, hproc, procs_set_self] at hc ⊢
    intro b hb
    have hp := hc b hb
    rw [hran, hsince, ht]
    obtain ⟨hfour, hnone | hroom⟩ := hp.result (Option.some_ne_none target)
    · cases hnone
    · exact ⟨Nat.le_succ_of_le hfour, hroom⟩
  | @edits pid u call p p' edits x facts hproc ha =>
    obtain ⟨hran, hsince⟩ := hruns pid u rfl
    simp only [Event.pid, hproc, procs_set_self] at hc ⊢
    intro b hb
    have hp := hc b hb
    rw [hran, hsince, ht]
    exact hp.step ha (Or.imp_left fun hnone => (hnone.advance trivial ha).2)
  | @stages pid u call target edits staged x p p' facts hproc =>
    obtain ⟨hran, hsince⟩ := hruns pid u rfl
    simp only [Event.pid, hproc, procs_set_self] at hc ⊢
    intro b hb
    obtain ⟨hfour, hroom⟩ := hc b hb
    rw [hran, hsince, ht]
    exact ⟨Nat.le_succ_of_le hfour, hroom⟩
  | _ =>
    simp only [Event.pid, System.reply, procs_set_self]
    trivial

theorem counting_step (h : Contested purposeOf w.state)
    (hc : ∀ pid, Counting purposeOf w pid (w.state.procs pid))
    (hstep : watch.watched (step zone purposeOf) w e = some w') (pid : Fin n) :
    Counting purposeOf w' pid (w'.state.procs pid) := by
  by_cases hpid : pid = e.pid
  · subst hpid
    exact counting_self (hc _) hstep
  · exact counting_beside h (hc pid) hpid hstep

/-- **The structure holds as long as no other `create_branch` of a brand commits between a count and
its commit; and whoever loses a race answers the row that won.** -/
theorem branchStructure_of_run {es : List (Event n)}
    (h : Run (watch.watched (step zone purposeOf)) Undisturbed (.start .empty) es w) :
    BranchStructure w.state.db ∧
      ∀ reply ∈ w.state.replies, (reply.lost = true → ∃ r, reply.outcome = .existing r) ∧
        ∀ r, reply.outcome = .existing r → Won w.state.db r reply.call := by
  obtain ⟨hI, hcap, -⟩ : Contested purposeOf w.state ∧ Capped w.state.db ∧
      ∀ pid, Counting purposeOf w pid (w.state.procs pid) := by
    refine h.invariant (I := fun w => Contested purposeOf w.state ∧ Capped w.state.db ∧
      ∀ pid, Counting purposeOf w pid (w.state.procs pid)) ?_ ?_
    · exact ⟨contested_empty, fun b => Nat.zero_le _, fun _ => trivial⟩
    · rintro w e w' ⟨hI, hcap, hc⟩ hok hstep
      have hs := Watch.step_of_watched hstep
      exact ⟨contested_step hI hs, capped_step hI hcap hc hok hs, counting_step hI hc hstep⟩
  refine ⟨⟨branchRules_of_regular hI.db, hcap⟩, fun reply hreply => ?_⟩
  have hfair := hI.replies reply hreply
  unfold Reply.Fair at hfair
  constructor
  · intro hlost
    rw [hlost] at hfair
    split at hfair
    · cases hfair
    · cases hfair
    · next r hr => exact ⟨r, hr⟩
    · exact hfair.elim
  · intro r hr
    rw [hr] at hfair
    exact hfair

/-- Two brands, and branches of the first. -/
def purposes : ℕ → Purpose
  | 1 | 50 => .brand
  | u => if u < 100 then .branch 1 else .event

def runs (pid : Fin n) (k : ℕ) : List (Event n) := List.replicate k (.run pid 0)

def newDiner (pid : Fin n) : Event n :=
  .start pid (.createRestaurant "owner" "Diner" ⟨"Pune", none, none, none⟩ [] none none)

def opening (pid : Fin n) : List (Event n) :=
  newDiner pid :: runs pid 1 ++ [.run pid 1] ++ runs pid 3 ++ [.run pid 2] ++ runs pid 11 ++
    [.run pid 100] ++ runs pid 8 ++ [.run pid 101] ++ runs pid 2

/-- `create_branch` up to its count of the siblings. -/
def counting (pid : Fin n) (label : String) : List (Event n) :=
  .start pid (.createBranch 1 label ⟨"Pune", none, none, none⟩ none) :: runs pid 4

/-- The rest of it. -/
def inserting (pid : Fin n) (u : ℕ) : List (Event n) :=
  .run pid u :: runs pid 12 ++ [.run pid (u + 100)] ++ runs pid 2

/-- Both have found no brand of the owner. -/
def twoOwners : List (Event 2) :=
  newDiner p₁ :: runs p₁ 1 ++ opening p₀ ++ [.run p₁ 50] ++ runs p₁ 5

theorem branchStructure_of_twoOwners : ∃ w : Watched (System 2) (Fin 2) RestaurantId,
    Run (watch.watched (step "UTC" purposes)) Undisturbed (.start .empty) twoOwners w ∧
      w.state.replies.map (·.lost) = [true, false] ∧ BranchStructure w.state.db ∧
        ∀ reply ∈ w.state.replies, (reply.lost = true → ∃ r, reply.outcome = .existing r) ∧
          ∀ r, reply.outcome = .existing r → Won w.state.db r reply.call := by
  obtain ⟨w, hrun, hp⟩ : ∃ w : Watched (System 2) (Fin 2) RestaurantId,
      Run (watch.watched (step "UTC" purposes)) Undisturbed (.start .empty) twoOwners w ∧
        decide (w.state.replies.map (·.lost) = [true, false]) = true :=
    exists_run_of_execOk (by decide +kernel)
  exact ⟨w, hrun, of_decide_eq_true hp, branchStructure_of_run hrun⟩

/-- A brand with 19 branches, and two calls that have both counted 19. -/
def twoCounts : List (Event 2) :=
  opening p₀ ++
    (List.range 18).flatMap
      (fun i => counting p₀ (String.ofList [Char.ofNat (65 + i)]) ++ inserting p₀ (i + 3)) ++
        counting p₀ "a" ++ counting p₁ "b" ++ inserting p₀ 21 ++ inserting p₁ 22

set_option maxRecDepth 100000 in
/-- **Two calls can both count 19 branches, and the brand has 21.** -/
theorem cap_exceeded : ¬ ∀ (zone : String) (purposeOf : ℕ → Purpose) (n : ℕ)
    (es : List (Event n)) (s : System n), Run (step zone purposeOf) Always .empty es s →
      BranchStructure s.db := by
  intro h
  obtain ⟨s, hrun, hp⟩ : ∃ s : System 2, Run (step "UTC" purposes) Always .empty twoCounts s ∧
      decide ((s.db.branches 1).length = 21) = true := exists_run_of_execOk (by decide +kernel)
  have hcap := (h _ _ _ _ s hrun).capped 1
  rw [of_decide_eq_true hp] at hcap
  revert hcap
  decide

end Race

end Catalog
