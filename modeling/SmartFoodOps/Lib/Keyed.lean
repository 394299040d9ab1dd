/-
Tables of rows with a primary key, and ordered queries on them.

The order in which a table keeps its rows means nothing: every query sorts what it
selects, by a column and then by a number that tells its rows apart.

* `Table` — rows of which no two have the same key, with `find`, `put`, `erase` and
  `modify`, each with its membership lemma;
* `orderBy` — `ORDER BY`, and that it commutes with a filter (`filter_orderBy`);
* `Table.select` — an ordered query; it answers the same on tables that agree on the rows
  it selects (`select_congr`);
* `latest`, `pairwise_latest`, `lt_of_not_mem_latest` — `ORDER BY … DESC LIMIT n`;
* `mem_latest` — a row is among the latest `n` if fewer than `n` are after it;
* `earliest`, `mem_earliest_of_lt` — `ORDER BY … LIMIT n`;
* `flatMap_filter_perm`, `filter_flatMap_filter` — a list in groups.
-/
import Mathlib.Data.List.Sort
import Mathlib.Data.List.Nodup

set_option linter.unusedSectionVars false

namespace Keyed

variable {ρ κ β γ : Type*}

/-! ### Tables -/

/-- Rows of which no two have the same key. -/
structure Table (ρ κ : Type*) (key : ρ → κ) where
  rows : List ρ
  distinct : (rows.map key).Nodup

namespace Table

variable {key : ρ → κ} {t t' : Table ρ κ key} {r r' x : ρ} {k : κ}

instance : Membership ρ (Table ρ κ key) := ⟨fun t r => r ∈ t.rows⟩

instance [DecidableEq ρ] : Decidable (r ∈ t) := inferInstanceAs (Decidable (r ∈ t.rows))

theorem mem_def : r ∈ t ↔ r ∈ t.rows := Iff.rfl

def empty : Table ρ κ key := ⟨[], .nil⟩

@[simp] theorem not_mem_empty : r ∉ (empty : Table ρ κ key) := List.not_mem_nil

/-- A key has one row. -/
theorem eq_of_key (hr : r ∈ t) (hr' : r' ∈ t) (h : key r = key r') : r = r' :=
  List.inj_on_of_nodup_map t.distinct hr hr' h

theorem nodup : t.rows.Nodup := t.distinct.of_map key

section

variable [DecidableEq κ]

def find (t : Table ρ κ key) (k : κ) : Option ρ := t.rows.find? fun r => key r = k

theorem find_eq_some : t.find k = some r ↔ r ∈ t ∧ key r = k := by
  constructor
  · intro h
    exact ⟨List.mem_of_find?_eq_some h, by simpa using List.find?_some h⟩
  · rintro ⟨hr, rfl⟩
    rcases hf : t.find (key r) with _ | r'
    · have hno := List.find?_eq_none.mp hf r hr
      simp at hno
    · have hmem : r' ∈ t := List.mem_of_find?_eq_some hf
      have hkey : key r' = key r := by simpa using List.find?_some hf
      rw [eq_of_key hmem hr hkey]

theorem find_eq_none : t.find k = none ↔ ∀ r ∈ t, key r ≠ k := by
  simp [find, mem_def]

theorem find_congr (h : ∀ r, key r = k → (r ∈ t ↔ r ∈ t')) : t.find k = t'.find k := by
  refine Option.ext fun r => ?_
  rw [find_eq_some, find_eq_some]
  exact and_congr_left fun hk => h r hk

/-- The row in place of whatever had its key. -/
def put (t : Table ρ κ key) (r : ρ) : Table ρ κ key where
  rows := r :: t.rows.filter fun x => key x ≠ key r
  distinct := by
    refine List.nodup_cons.mpr ⟨?_, t.distinct.sublist (List.filter_sublist.map key)⟩
    simp

def erase (t : Table ρ κ key) (k : κ) : Table ρ κ key where
  rows := t.rows.filter fun x => key x ≠ k
  distinct := t.distinct.sublist (List.filter_sublist.map key)

/-- A change of the row with a key. -/
def modify (t : Table ρ κ key) (k : κ) (f : ρ → ρ) (hf : ∀ r, key (f r) = key r) :
    Table ρ κ key where
  rows := t.rows.map fun x => if key x = k then f x else x
  distinct := by
    have hmap : (t.rows.map fun x => if key x = k then f x else x).map key = t.rows.map key := by
      rw [List.map_map]
      refine List.map_congr_left fun x _ => ?_
      show key (if key x = k then f x else x) = key x
      split
      · exact hf x
      · rfl
    rw [hmap]
    exact t.distinct

theorem mem_put : x ∈ t.put r ↔ x = r ∨ x ∈ t ∧ key x ≠ key r := by
  simp [mem_def, put]

theorem mem_erase : x ∈ t.erase k ↔ x ∈ t ∧ key x ≠ k := by
  simp [mem_def, erase]

theorem mem_modify {f : ρ → ρ} (hf : ∀ r, key (f r) = key r) :
    x ∈ t.modify k f hf ↔ x ∈ t ∧ key x ≠ k ∨ ∃ r ∈ t, key r = k ∧ x = f r := by
  simp only [mem_def, modify, List.mem_map]
  constructor
  · rintro ⟨r, hr, rfl⟩
    by_cases h : key r = k
    · rw [if_pos h]
      exact .inr ⟨r, hr, h, rfl⟩
    · rw [if_neg h]
      exact .inl ⟨hr, h⟩
  · rintro (⟨hx, h⟩ | ⟨r, hr, h, rfl⟩)
    · exact ⟨x, hx, if_neg h⟩
    · exact ⟨r, hr, if_pos h⟩

end

end Table

/-! ### Ordered queries -/

section

variable [LinearOrder γ]

/-- The order by `a`, then by `i`. -/
def Before (a : β → γ) (i : β → ℕ) (x y : β) : Prop := a x < a y ∨ a x = a y ∧ i x ≤ i y

instance (a : β → γ) (i : β → ℕ) (x y : β) : Decidable (Before a i x y) :=
  inferInstanceAs (Decidable (_ ∨ _))

def orderBy (a : β → γ) (i : β → ℕ) (l : List β) : List β := l.insertionSort (Before a i)

variable {a : β → γ} {i : β → ℕ} {l l' : List β} {x y : β}

instance : Std.Total (Before a i) where
  total x y := by
    rcases lt_trichotomy (a x) (a y) with h | h | h
    · exact .inl (.inl h)
    · rcases le_total (i x) (i y) with hi | hi
      · exact .inl (.inr ⟨h, hi⟩)
      · exact .inr (.inr ⟨h.symm, hi⟩)
    · exact .inr (.inl h)

instance : IsTrans β (Before a i) where
  trans x y z := by
    rintro (hxy | ⟨hxy, hi⟩) (hyz | ⟨hyz, hj⟩)
    · exact .inl (hxy.trans hyz)
    · exact .inl (hyz ▸ hxy)
    · exact .inl (hxy ▸ hyz)
    · exact .inr ⟨hxy.trans hyz, hi.trans hj⟩

theorem before_antisymm (h : Before a i x y) (h' : Before a i y x) : a x = a y ∧ i x = i y := by
  rcases h with h | ⟨h, hi⟩
  · rcases h' with h' | ⟨h', -⟩
    · exact absurd h' h.asymm
    · exact absurd h'.symm h.ne
  · rcases h' with h' | ⟨-, hi'⟩
    · exact absurd h h'.ne'
    · exact ⟨h, hi.antisymm hi'⟩

@[simp] theorem mem_orderBy : x ∈ orderBy a i l ↔ x ∈ l := List.mem_insertionSort _

theorem perm_orderBy : (orderBy a i l).Perm l := List.perm_insertionSort _ _

/-- The columns of the order tell the elements apart. -/
def Ranked (a : β → γ) (i : β → ℕ) (l : List β) : Prop :=
  ∀ x ∈ l, ∀ y ∈ l, a x = a y → i x = i y → x = y

theorem eq_orderBy (hl : Ranked a i l) (hp : l'.Perm l) (hs : l'.Pairwise (Before a i)) :
    l' = orderBy a i l := by
  refine List.Perm.eq_of_pairwise (fun x y hx hy hxy hyx => ?_) hs
    (List.pairwise_insertionSort _ l) (hp.trans perm_orderBy.symm)
  obtain ⟨h, hi⟩ := before_antisymm hxy hyx
  exact hl x (hp.mem_iff.mp hx) y (mem_orderBy.mp hy) h hi

theorem orderBy_eq_of_perm (hl : Ranked a i l) (hp : l'.Perm l) : orderBy a i l' = orderBy a i l :=
  eq_orderBy hl (perm_orderBy.trans hp) (List.pairwise_insertionSort _ l')

/-- **A filter after the sort is one before it.** -/
theorem filter_orderBy (hl : Ranked a i l) (p : β → Bool) :
    (orderBy a i l).filter p = orderBy a i (l.filter p) := by
  refine eq_orderBy (fun x hx y hy => ?_) (perm_orderBy.filter p)
    ((List.pairwise_insertionSort _ l).sublist List.filter_sublist)
  exact hl x (List.mem_of_mem_filter hx) y (List.mem_of_mem_filter hy)

namespace Table

variable {key : ρ → κ} {t t' : Table ρ κ key} {f : ρ → Option β}

/-- `SELECT … ORDER BY a, i`; `f` picks the rows. -/
def select (t : Table ρ κ key) (f : ρ → Option β) (a : β → γ) (i : β → ℕ) : List β :=
  orderBy a i (t.rows.filterMap f)

theorem mem_select : x ∈ t.select f a i ↔ ∃ r ∈ t, f r = some x := by
  simp [select, mem_def]

/-- Rows that are equal in the columns of the order have one key. -/
def Tells (key : ρ → κ) (f : ρ → Option β) (a : β → γ) (i : β → ℕ) : Prop :=
  ∀ r r' x x', f r = some x → f r' = some x' → a x = a x' → i x = i x' → key r = key r'

theorem tells_of_key (k : γ → ℕ → κ) (h : ∀ r x, f r = some x → key r = k (a x) (i x)) :
    Tells key f a i := by
  intro r r' x x' hx hx' ha hi
  rw [h r x hx, h r' x' hx', ha, hi]

theorem ranked (hf : Tells key f a i) : Ranked a i (t.rows.filterMap f) := by
  intro x hx y hy ha hi
  obtain ⟨r, hr, hrx⟩ := List.mem_filterMap.mp hx
  obtain ⟨r', hr', hry⟩ := List.mem_filterMap.mp hy
  obtain rfl : r = r' := eq_of_key hr hr' (hf r r' x y hrx hry ha hi)
  rw [hrx] at hry
  exact Option.some.inj hry

theorem nodup_filterMap (hf : Tells key f a i) : (t.rows.filterMap f).Nodup := by
  refine List.Pairwise.filterMap f ?_ (List.pairwise_map.mp t.distinct)
  intro r r' hne x hx y hy hxy
  subst hxy
  exact hne (hf r r' x x hx hy rfl rfl)

theorem nodup_select (hf : Tells key f a i) : (t.select f a i).Nodup :=
  perm_orderBy.nodup_iff.mpr (nodup_filterMap hf)

/-- Identifiers that are keys are distinct. -/
theorem nodup_ids (k : ℕ → κ) (h : ∀ r x, f r = some x → key r = k (i x)) :
    ((t.select f a i).map i).Nodup := by
  refine (perm_orderBy.map i).nodup_iff.mpr (List.pairwise_map.mpr ?_)
  refine List.Pairwise.filterMap f ?_ (List.pairwise_map.mp t.distinct)
  intro r r' hne x hx y hy hxy
  exact hne ((h r x hx).trans (hxy ▸ (h r' y hy).symm))

/-- **Queries see only what they select.** -/
theorem select_congr (hf : Tells key f a i) (h : ∀ r x, f r = some x → (r ∈ t ↔ r ∈ t')) :
    t.select f a i = t'.select f a i := by
  refine orderBy_eq_of_perm (ranked hf)
    ((List.perm_ext_iff_of_nodup (nodup_filterMap hf) (nodup_filterMap hf)).mpr fun x => ?_)
  simp only [List.mem_filterMap]
  exact exists_congr fun r => and_congr_left fun hx => h r x hx

theorem filter_select (hf : Tells key f a i) (p : β → Bool) :
    (t.select f a i).filter p = t.select (fun r => (f r).filter p) a i := by
  rw [select, filter_orderBy (ranked hf), select]
  congr 1
  rw [List.filter_filterMap]

end Table

/-! ### The latest rows -/

section

variable {stamp : β → γ} {l : List β} {x : β} {n : ℕ}

instance total_stamp : Std.Total fun x y : β => stamp y ≤ stamp x := ⟨fun x y => le_total (stamp y) (stamp x)⟩

instance trans_stamp : IsTrans β fun x y => stamp y ≤ stamp x := ⟨fun _ _ _ hxy hyz => hyz.trans hxy⟩

/-- `ORDER BY stamp DESC LIMIT n`. -/
def latest (stamp : β → γ) (n : ℕ) (l : List β) : List β :=
  (l.insertionSort fun x y => stamp y ≤ stamp x).take n

theorem mem_of_mem_latest (hx : x ∈ latest stamp n l) : x ∈ l :=
  (List.perm_insertionSort _ l).mem_iff.mp (List.mem_of_mem_take hx)

theorem length_latest : (latest stamp n l).length = min n l.length := by
  unfold latest
  rw [List.length_take, List.length_insertionSort]

theorem take_latest {k : ℕ} (hk : k ≤ n) : (latest stamp n l).take k = latest stamp k l := by
  unfold latest
  rw [List.take_take, Nat.min_eq_left hk]

/-- Rows that differ have different stamps. -/
def Stamped (stamp : β → γ) (l : List β) : Prop :=
  l.Nodup ∧ ∀ x ∈ l, ∀ y ∈ l, stamp x = stamp y → x = y

/-- The latest come first. -/
theorem pairwise_latest (hl : Stamped stamp l) :
    (latest stamp n l).Pairwise fun x y => stamp y < stamp x := by
  have hperm := List.perm_insertionSort (fun x y => stamp y ≤ stamp x) l
  have hsorted := List.pairwise_insertionSort (fun x y => stamp y ≤ stamp x) l
  have hnodup : (l.insertionSort fun x y => stamp y ≤ stamp x).Nodup := hperm.nodup_iff.mpr hl.1
  refine List.Pairwise.sublist (List.take_sublist _ _) ?_
  refine (hsorted.and hnodup).imp_of_mem fun {x y} hx hy hxy => ?_
  refine hxy.1.lt_of_ne fun he => hxy.2 ?_
  exact hl.2 x (hperm.mem_iff.mp hx) y (hperm.mem_iff.mp hy) he.symm

/-- A row that is not among the latest comes after them all. -/
theorem lt_of_not_mem_latest {y : β} (hl : Stamped stamp l) (hx : x ∈ l)
    (hn : x ∉ latest stamp n l) (hy : y ∈ latest stamp n l) : stamp x < stamp y := by
  have hperm := List.perm_insertionSort (fun x y => stamp y ≤ stamp x) l
  have hsorted := List.pairwise_insertionSort (fun x y => stamp y ≤ stamp x) l
  have hmem := hperm.mem_iff.mpr hx
  rw [← List.take_append_drop n (l.insertionSort fun x y => stamp y ≤ stamp x)] at hmem hsorted
  have hdrop := (List.mem_append.mp hmem).resolve_left hn
  refine ((List.pairwise_append.mp hsorted).2.2 y hy x hdrop).lt_of_ne fun he => hn ?_
  obtain rfl : x = y := hl.2 x hx y (mem_of_mem_latest hy) he
  exact hy

theorem mem_latest_of_length_le (hn : l.length ≤ n) (hx : x ∈ l) : x ∈ latest stamp n l := by
  unfold latest
  rw [List.take_of_length_le (by rwa [List.length_insertionSort])]
  exact (List.mem_insertionSort _).mpr hx

/-- **Fewer than `n` rows after it**: the row is among the latest `n`. -/
theorem mem_latest (hl : Stamped stamp l) (hx : x ∈ l)
    (hn : l.countP (fun y => stamp x < stamp y) < n) : x ∈ latest stamp n l := by
  by_contra hnot
  have hall : (latest stamp n l).countP (fun y => stamp x < stamp y) =
      (latest stamp n l).length :=
    List.countP_eq_length.mpr fun y hy => decide_eq_true (lt_of_not_mem_latest hl hx hnot hy)
  have hle : (latest stamp n l).countP (fun y => stamp x < stamp y) ≤
      l.countP fun y => stamp x < stamp y := by
    rw [← (List.perm_insertionSort (fun x y => stamp y ≤ stamp x) l).countP_eq]
    exact (List.take_sublist _ _).countP_le
  rw [length_latest] at hall
  rcases Nat.lt_or_ge n l.length with hlen | hlen
  · omega
  · exact hnot (mem_latest_of_length_le hlen hx)

/-- `ORDER BY stamp LIMIT n`. -/
def earliest (stamp : β → γ) (n : ℕ) (l : List β) : List β :=
  latest (fun x => OrderDual.toDual (stamp x)) n l

theorem mem_of_mem_earliest (hx : x ∈ earliest stamp n l) : x ∈ l := mem_of_mem_latest hx

theorem length_earliest : (earliest stamp n l).length = min n l.length := length_latest

/-- The earliest come first. -/
theorem pairwise_earliest (hl : Stamped stamp l) :
    (earliest stamp n l).Pairwise fun x y => stamp x < stamp y :=
  @pairwise_latest β γᵒᵈ _ (fun x => OrderDual.toDual (stamp x)) l n hl

/-- What comes before a row that is among the earliest is among them too. -/
theorem mem_earliest_of_lt {y : β} (hl : Stamped stamp l) (hx : x ∈ l)
    (hy : y ∈ earliest stamp n l) (hlt : stamp x < stamp y) : x ∈ earliest stamp n l := by
  by_contra hn
  have hafter : stamp y < stamp x :=
    @lt_of_not_mem_latest β γᵒᵈ _ (fun x => OrderDual.toDual (stamp x)) l x n y hl hx hn hy
  exact hlt.asymm hafter

end

/-! ### Groups -/

section

variable {α ξ : Type} [DecidableEq ξ] {keys : List ξ} {g : α → ξ}

/-- The groups of a list, for keys that cover it, are the list. -/
theorem flatMap_filter_perm (hkeys : keys.Nodup) {l : List α} (hl : ∀ x ∈ l, g x ∈ keys) :
    (keys.flatMap fun k => l.filter fun x => g x = k).Perm l := by
  induction keys generalizing l with
  | nil =>
    obtain rfl : l = [] := List.eq_nil_iff_forall_not_mem.mpr fun x hx => List.not_mem_nil (hl x hx)
    exact .nil
  | cons k ks ih =>
    obtain ⟨hk, hks⟩ := List.nodup_cons.mp hkeys
    have hrest : ∀ x ∈ l.filter fun x => ! decide (g x = k), g x ∈ ks := by
      intro x hx
      obtain ⟨hmem, hne⟩ := List.mem_filter.mp hx
      exact (List.mem_cons.mp (hl x hmem)).resolve_left (by simpa using hne)
    have hgroups : (ks.flatMap fun k' => l.filter fun x => g x = k') = ks.flatMap fun k' =>
        (l.filter fun x => ! decide (g x = k)).filter fun x => g x = k' := by
      refine List.flatMap_congr fun k' hk' => ?_
      rw [List.filter_filter]
      refine List.filter_congr fun x _ => ?_
      by_cases hx : g x = k'
      · have hne : g x ≠ k := fun h => hk ((h.symm.trans hx) ▸ hk')
        simp [hx, hx ▸ hne]
      · simp [hx]
    rw [List.flatMap_cons, hgroups]
    exact ((ih hks hrest).append_left _).trans (List.filter_append_perm _ l)

/-- The group of a key, taken out of some groups with that key. -/
theorem filter_flatMap_filter (hkeys : keys.Nodup) {l : List α} {k : ξ} (hk : k ∈ keys) :
    ((keys.flatMap fun k' => l.filter fun x => g x = k').filter fun x => g x = k) =
      l.filter fun x => g x = k := by
  rw [List.filter_flatMap]
  have hgroup : ∀ k', ((l.filter fun x => g x = k').filter fun x => g x = k) =
      if k' = k then l.filter fun x => g x = k else [] := by
    intro k'
    rw [List.filter_filter]
    split
    · next h =>
      subst h
      simp
    · next h =>
      refine List.filter_eq_nil_iff.mpr fun x _ hx => h ?_
      simp only [Bool.and_eq_true, decide_eq_true_eq] at hx
      exact hx.2.symm.trans hx.1
  simp only [hgroup]
  clear hgroup
  induction keys with
  | nil => cases hk
  | cons x xs ih =>
    obtain ⟨hx, hxs⟩ := List.nodup_cons.mp hkeys
    rw [List.flatMap_cons]
    rcases List.mem_cons.mp hk with rfl | hk
    · rw [if_pos rfl]
      have hnil : (xs.flatMap fun k' => if k' = k then l.filter fun x => g x = k else []) = [] :=
        List.flatMap_eq_nil_iff.mpr fun k' hk' => if_neg (by rintro rfl; exact hx hk')
      rw [hnil, List.append_nil]
    · rw [if_neg (by rintro rfl; exact hx hk), List.nil_append]
      exact ih hxs hk

/-- The element with an identifier, among distinct ones. -/
theorem find?_eq_some_of_nodup {l : List α} (hl : (l.map g).Nodup) {k : ξ} {x : α} :
    l.find? (fun x => g x = k) = some x ↔ x ∈ l ∧ g x = k := by
  constructor
  · intro h
    have hx := List.find?_some h
    exact ⟨List.mem_of_find?_eq_some h, by simpa using hx⟩
  · rintro ⟨hmem, rfl⟩
    cases h : l.find? (fun y => g y = g x) with
    | none => exact absurd (decide_eq_true rfl) (List.find?_eq_none.mp h x hmem)
    | some y =>
      have hy := List.find?_some h
      rw [decide_eq_true_eq] at hy
      rw [List.inj_on_of_nodup_map hl (List.mem_of_find?_eq_some h) hmem hy]

end

end

end Keyed
