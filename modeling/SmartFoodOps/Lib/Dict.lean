/-
Dictionaries that keep the order of insertion, and folds that act on one key at a time.

* `Dict` — entries of which no two have the same key; `alter` changes one in its place, or
  appends it;
* `Dict.gather` — a dictionary from a list: each element changes the entry of its key;
* `Dict.get_gather` — an entry is the fold over the elements with its key;
* `Dict.index` — the comprehension `{key(x): x for x in l}`;
* `Dict.groupBy` — the groups of a list by a key, which are the list (`Dict.groupBy_perm`);
* `Table.insertOr`, `Table.insertOrIgnore` — `INSERT … ON CONFLICT` with `DO UPDATE` and with
  `DO NOTHING`;
* `Table.deleteWhere`, `Table.updateWhere` — `DELETE … WHERE`, `UPDATE … WHERE`;
* `Table.find_foldl` — what a list of such statements leaves at a key.
-/
import SmartFoodOps.Lib.Keyed
import Mathlib.Data.List.Induction

variable {κ ν α : Type*} [DecidableEq κ]

/-! ### Dictionaries -/

/-- Entries in the order of insertion. -/
structure Dict (κ ν : Type*) where
  entries : List (κ × ν)
  distinct : (entries.map Prod.fst).Nodup

namespace Dict

def empty : Dict κ ν := ⟨[], List.nodup_nil⟩

def get (d : Dict κ ν) (k : κ) : Option ν := (d.entries.find? fun e => e.1 = k).map Prod.snd

def values (d : Dict κ ν) : List ν := d.entries.map Prod.snd

/-- The entry of `k`, changed in its place, or appended. -/
def alterEntries (k : κ) (f : Option ν → ν) : List (κ × ν) → List (κ × ν)
  | [] => [(k, f none)]
  | (k', v) :: rest =>
    if k' = k then (k', f (some v)) :: rest else (k', v) :: alterEntries k f rest

theorem keys_alterEntries {k : κ} {f : Option ν → ν} {l : List (κ × ν)} :
    (alterEntries k f l).map Prod.fst =
      if k ∈ l.map Prod.fst then l.map Prod.fst else l.map Prod.fst ++ [k] := by
  induction l with
  | nil => rfl
  | cons e rest ih =>
    obtain ⟨k', v⟩ := e
    unfold alterEntries
    by_cases hk : k' = k
    · rw [if_pos hk, if_pos (by rw [List.map_cons, hk]; exact List.mem_cons_self)]
      rfl
    · rw [if_neg hk, List.map_cons, ih, List.map_cons]
      have hmem : k ∈ k' :: rest.map Prod.fst ↔ k ∈ rest.map Prod.fst := by
        rw [List.mem_cons]
        exact or_iff_right fun h => hk h.symm
      simp only [hmem]
      split <;> rfl

def alter (d : Dict κ ν) (k : κ) (f : Option ν → ν) : Dict κ ν where
  entries := alterEntries k f d.entries
  distinct := by
    rw [keys_alterEntries]
    split
    · exact d.distinct
    · next h =>
      exact List.nodup_append.mpr ⟨d.distinct, List.nodup_singleton k, fun x hx y hy => by
        rw [List.mem_singleton.mp hy]
        rintro rfl
        exact h hx⟩

variable {d : Dict κ ν} {k k' : κ} {v : ν} {f : Option ν → ν}

theorem get_alter : (d.alter k f).get k' = if k = k' then some (f (d.get k)) else d.get k' := by
  show ((alterEntries k f d.entries).find? _).map _ = _
  unfold get
  induction d.entries with
  | nil =>
    unfold alterEntries
    by_cases hk : k = k'
    · simp [hk]
    · simp [hk]
  | cons e rest ih =>
    obtain ⟨k₀, v⟩ := e
    unfold alterEntries
    by_cases h₀ : k₀ = k
    · subst h₀
      by_cases hk : k₀ = k'
      · simp [hk]
      · simp [hk]
    · by_cases h' : k₀ = k'
      · subst h'
        simp [h₀, Ne.symm h₀]
      · simpa [h₀, h'] using ih

theorem mem_entries : (k, v) ∈ d.entries ↔ d.get k = some v := by
  constructor
  · intro h
    rcases hf : d.entries.find? (fun e => decide (e.1 = k)) with _ | ⟨k', v'⟩
    · have hno := List.find?_eq_none.mp hf _ h
      simp at hno
    · have hmem := List.mem_of_find?_eq_some hf
      have hk : k' = k := by simpa using List.find?_some hf
      have heq : (k', v') = (k, v) := List.inj_on_of_nodup_map d.distinct hmem h hk
      unfold get
      rw [hf, heq]
      rfl
  · intro h
    obtain ⟨e, he, rfl⟩ := Option.map_eq_some_iff.mp h
    have hk : e.1 = k := by simpa using List.find?_some he
    rw [← hk]
    exact List.mem_of_find?_eq_some he

theorem mem_values : v ∈ d.values ↔ ∃ k, d.get k = some v := by
  unfold values
  rw [List.mem_map]
  constructor
  · rintro ⟨⟨k, v⟩, he, rfl⟩
    exact ⟨k, mem_entries.mp he⟩
  · rintro ⟨k, h⟩
    exact ⟨(k, v), mem_entries.mpr h, rfl⟩

/-- A key has at most one entry. -/
theorem filter_entries (d : Dict κ ν) (k : κ) :
    (d.entries.filter fun e => e.1 = k) = (d.get k).toList.map fun v => (k, v) := by
  have hnodup : (d.entries.filter fun e => e.1 = k).Nodup := (d.distinct.of_map Prod.fst).filter _
  have hmem : ∀ e, e ∈ (d.entries.filter fun e => e.1 = k) ↔ e.1 = k ∧ d.get k = some e.2 := by
    rintro ⟨k', v⟩
    rw [List.mem_filter, mem_entries, decide_eq_true_eq]
    constructor
    · rintro ⟨h, rfl⟩
      exact ⟨rfl, h⟩
    · rintro ⟨rfl, h⟩
      exact ⟨h, rfl⟩
  cases hget : d.get k with
  | none =>
    refine List.eq_nil_iff_forall_not_mem.mpr fun e he => ?_
    have h := ((hmem e).mp he).2
    rw [hget] at h
    cases h
  | some v =>
    refine List.perm_singleton.mp ((List.perm_ext_iff_of_nodup hnodup (List.nodup_singleton _)).mpr
      fun e => ?_)
    obtain ⟨k', v'⟩ := e
    rw [hmem, hget, List.mem_singleton, Prod.mk.injEq, Option.some.injEq]
    exact and_congr_right fun _ => eq_comm

/-! ### Gathering -/

/-- Each element changes the entry of its key. -/
def gather (key : α → κ) (f : α → Option ν → ν) (l : List α) : Dict κ ν :=
  l.foldl (fun d x => d.alter (key x) (f x)) empty

variable {key : α → κ} {g : α → Option ν → ν} {l : List α}

theorem get_foldl_alter :
    (l.foldl (fun d x => d.alter (key x) (g x)) d).get k =
      (l.filter fun x => key x = k).foldl (fun o x => some (g x o)) (d.get k) := by
  induction l generalizing d with
  | nil => rfl
  | cons x xs ih =>
    rw [List.foldl_cons, ih, get_alter, List.filter_cons]
    by_cases hk : key x = k
    · rw [if_pos hk, if_pos (by simpa using hk), List.foldl_cons, hk]
    · rw [if_neg hk, if_neg (by simpa using hk)]

/-- **An entry is the fold over the elements with its key.** -/
theorem get_gather : (gather key g l).get k =
    (l.filter fun x => key x = k).foldl (fun o x => some (g x o)) none :=
  get_foldl_alter

theorem get_gather_of_mem {x : α} (hx : x ∈ l) : ∃ v, (gather key g l).get (key x) = some v := by
  have hfold : ∀ (xs : List α) (o : Option ν), xs ≠ [] →
      ∃ v, xs.foldl (fun o x => some (g x o)) o = some v := by
    intro xs
    induction xs with
    | nil => exact fun _ h => absurd rfl h
    | cons x xs ih =>
      intro o _
      rcases xs with _ | ⟨y, ys⟩
      · exact ⟨_, rfl⟩
      · exact ih _ (List.cons_ne_nil _ _)
  rw [get_gather]
  exact hfold _ _ (List.ne_nil_of_mem (List.mem_filter.mpr ⟨hx, decide_eq_true rfl⟩))

theorem exists_of_get_gather (h : (gather key g l).get k = some v) : ∃ x ∈ l, key x = k := by
  rw [get_gather] at h
  rcases hf : l.filter (fun x => decide (key x = k)) with _ | ⟨x, xs⟩
  · rw [hf] at h
    cases h
  · have hx : x ∈ l.filter fun x => decide (key x = k) := by
      rw [hf]
      exact List.mem_cons_self
    obtain ⟨hmem, hk⟩ := List.mem_filter.mp hx
    exact ⟨x, hmem, of_decide_eq_true hk⟩

/-- The keys are in the order of their first elements. -/
theorem keys_gather_concat {x : α} : (gather key g (l ++ [x])).entries.map Prod.fst =
    if key x ∈ (gather key g l).entries.map Prod.fst then (gather key g l).entries.map Prod.fst
    else (gather key g l).entries.map Prod.fst ++ [key x] := by
  have halter : gather key g (l ++ [x]) = (gather key g l).alter (key x) (g x) := by
    unfold gather
    rw [List.foldl_append]
    rfl
  rw [halter]
  exact keys_alterEntries

theorem keys_gather_sublist : ((gather key g l).entries.map Prod.fst).Sublist (l.map key) := by
  induction l using List.reverseRecOn with
  | nil => exact List.Sublist.refl _
  | append_singleton xs x ih =>
    rw [keys_gather_concat, List.map_append]
    split
    · exact ih.trans (List.sublist_append_left _ _)
    · exact ih.append (List.Sublist.refl _)

theorem keys_gather_append {m : List α} :
    (gather key g l).entries.map Prod.fst <+: (gather key g (l ++ m)).entries.map Prod.fst := by
  induction m using List.reverseRecOn with
  | nil =>
    have hnil : gather key g (l ++ []) = gather key g l := congrArg _ (List.append_nil l)
    exact hnil ▸ List.prefix_refl _
  | append_singleton xs x ih =>
    rw [← List.append_assoc, keys_gather_concat]
    split
    · exact ih
    · exact ih.trans (List.prefix_append _ _)

/-- The keys of the front, and then the new ones. -/
theorem keys_gather_append_eq {m : List α} : (gather key g (l ++ m)).entries.map Prod.fst =
    (gather key g l).entries.map Prod.fst ++ ((gather key g m).entries.map Prod.fst).filter fun k =>
      k ∉ (gather key g l).entries.map Prod.fst := by
  induction m using List.reverseRecOn with
  | nil =>
    have hnil : gather key g (l ++ []) = gather key g l := congrArg _ (List.append_nil l)
    rw [hnil]
    exact (List.append_nil _).symm
  | append_singleton xs x ih =>
    rw [← List.append_assoc, keys_gather_concat, ih, keys_gather_concat]
    generalize (gather key g l).entries.map Prod.fst = front
    generalize (gather key g xs).entries.map Prod.fst = new
    by_cases hfront : key x ∈ front
    · rw [if_pos (List.mem_append_left _ hfront)]
      split
      · rfl
      · rw [List.filter_append, List.filter_singleton, decide_eq_false (not_not_intro hfront)]
        exact congrArg _ (List.append_nil _).symm
    · by_cases hnew : key x ∈ new
      · rw [if_pos hnew, if_pos (List.mem_append_right _ (List.mem_filter.mpr
          ⟨hnew, decide_eq_true hfront⟩))]
      · have hnone : key x ∉ front ++ new.filter fun k => k ∉ front := fun h =>
          (List.mem_append.mp h).elim hfront fun h => hnew (List.mem_of_mem_filter h)
        rw [if_neg hnew, if_neg hnone, List.filter_append, List.filter_singleton,
          decide_eq_true hfront, List.append_assoc]
        rfl

theorem keys_gather_of_nodup (h : (l.map key).Nodup) :
    (gather key g l).entries.map Prod.fst = l.map key := by
  induction l using List.reverseRecOn with
  | nil => rfl
  | append_singleton xs x ih =>
    rw [List.map_append, List.nodup_append] at h
    rw [keys_gather_concat, ih h.1, List.map_append]
    exact if_neg fun hx => h.2.2 _ hx _ (List.mem_singleton_self _) rfl

theorem mem_keys_gather : k ∈ (gather key g l).entries.map Prod.fst ↔ ∃ x ∈ l, key x = k := by
  rw [List.mem_map]
  constructor
  · rintro ⟨⟨k', v⟩, he, rfl⟩
    exact exists_of_get_gather (mem_entries.mp he)
  · rintro ⟨x, hx, rfl⟩
    obtain ⟨v, hv⟩ := @get_gather_of_mem _ _ _ _ key g l x hx
    exact ⟨(key x, v), mem_entries.mpr hv, rfl⟩

/-- What every change keeps true of an entry is true of it. -/
theorem of_get_gather {P : κ → ν → Prop}
    (hP : ∀ x ∈ l, ∀ o, (∀ v, o = some v → P (key x) v) → P (key x) (g x o))
    (h : (gather key g l).get k = some v) : P k v := by
  have hfold : ∀ (xs : List α) (o : Option ν), (∀ x ∈ xs, x ∈ l ∧ key x = k) →
      (∀ v, o = some v → P k v) → ∀ v, xs.foldl (fun o x => some (g x o)) o = some v → P k v := by
    intro xs
    induction xs with
    | nil => exact fun o _ ho => ho
    | cons x xs ih =>
      intro o hxs ho
      obtain ⟨hx, hk⟩ := hxs x List.mem_cons_self
      refine ih _ (fun y hy => hxs y (List.mem_cons_of_mem _ hy)) ?_
      intro v hv
      obtain rfl := Option.some.inj hv
      have hstep := hP x hx o
      rw [hk] at hstep
      exact hstep ho
  rw [get_gather] at h
  refine hfold _ none ?_ ?_ v h
  · intro x hx
    obtain ⟨hmem, hk⟩ := List.mem_filter.mp hx
    exact ⟨hmem, of_decide_eq_true hk⟩
  · intro v hv
    cases hv

/-- `setdefault(key(x), set()).add(f(x))`: an entry is the set of what is added under its key. -/
theorem mem_get_gather_insert {β : Type*} [DecidableEq β] {f : α → β} {vs : List β}
    (h : (gather key (fun x o => (o.getD []).insert (f x)) l).get k = some vs) :
    vs.Nodup ∧ ∀ v, v ∈ vs ↔ ∃ x ∈ l, key x = k ∧ f x = v := by
  have hfold : ∀ (xs : List α) (o : Option (List β)), (o.getD []).Nodup →
      ((xs.foldl (fun o x => some ((o.getD []).insert (f x))) o).getD []).Nodup ∧
        ∀ v, v ∈ (xs.foldl (fun o x => some ((o.getD []).insert (f x))) o).getD [] ↔
          v ∈ o.getD [] ∨ ∃ x ∈ xs, f x = v := by
    intro xs
    induction xs with
    | nil => exact fun o ho => ⟨ho, fun v => by simp⟩
    | cons x xs ih =>
      intro o ho
      obtain ⟨hnodup, hmem⟩ := ih (some ((o.getD []).insert (f x))) ho.insert
      refine ⟨hnodup, fun v => ?_⟩
      rw [List.foldl_cons, hmem, Option.getD_some, List.mem_insert_iff, List.exists_mem_cons_iff,
        or_comm (a := v = f x), or_assoc, eq_comm (a := v)]
  obtain ⟨hnodup, hmem⟩ := hfold (l.filter fun x => decide (key x = k)) none List.nodup_nil
  rw [← get_gather, h] at hnodup hmem
  refine ⟨hnodup, fun v => (hmem v).trans ?_⟩
  constructor
  · rintro (hv | ⟨x, hx, hv⟩)
    · cases hv
    · obtain ⟨hx, hk⟩ := List.mem_filter.mp hx
      exact ⟨x, hx, of_decide_eq_true hk, hv⟩
  · rintro ⟨x, hx, hk, hv⟩
    exact .inr ⟨x, List.mem_filter.mpr ⟨hx, decide_eq_true hk⟩, hv⟩

/-- `setdefault`: the first element with a key makes its entry. -/
theorem get_gather_getD {f : α → ν} : (gather key (fun x o => o.getD (f x)) l).get k =
    (l.find? fun x => key x = k).map f := by
  have hsome : ∀ (xs : List α) (v : ν),
      xs.foldl (fun o x => some (o.getD (f x))) (some v) = some v := by
    intro xs v
    induction xs with
    | nil => rfl
    | cons x xs ih => exact ih
  rw [get_gather, ← List.head?_filter]
  rcases l.filter fun x => decide (key x = k) with _ | ⟨x, xs⟩
  · rfl
  · exact hsome xs (f x)

/-- `{key(x): x for x in l}`: the last element with a key makes its entry. -/
def index (key : α → κ) (l : List α) : Dict κ α := gather key (fun x _ => x) l

theorem get_index : (index key l).get k = (l.filter fun x => key x = k).getLast? := by
  have hlast : ∀ (xs : List α) (o : Option α),
      xs.foldl (fun _ x => some x) o = xs.getLast?.or o := by
    intro xs
    induction xs with
    | nil => exact fun o => rfl
    | cons x xs ih =>
      intro o
      rw [List.foldl_cons, ih, List.getLast?_cons]
      cases xs.getLast? <;> rfl
  unfold index
  rw [get_gather, hlast, Option.or_none]

theorem mem_of_get_index {x : α} (h : (index key l).get k = some x) : x ∈ l ∧ key x = k := by
  rw [get_index] at h
  obtain ⟨hmem, hk⟩ := List.mem_filter.mp (List.mem_of_getLast? h)
  exact ⟨hmem, of_decide_eq_true hk⟩

theorem get_index_eq_none : (index key l).get k = none ↔ ∀ x ∈ l, key x ≠ k := by
  rw [get_index, List.getLast?_eq_none_iff, List.filter_eq_nil_iff]
  simp only [decide_eq_true_eq, ne_eq]

/-- Where no two elements have the same key, the entry is the element. -/
theorem get_index_eq_some (hl : (l.map key).Nodup) {x : α} :
    (index key l).get k = some x ↔ x ∈ l ∧ key x = k := by
  refine ⟨mem_of_get_index, fun ⟨hx, hk⟩ => ?_⟩
  rcases Option.eq_none_or_eq_some ((index key l).get k) with h | ⟨y, h⟩
  · exact absurd hk (get_index_eq_none.mp h x hx)
  · obtain ⟨hy, hky⟩ := mem_of_get_index h
    rw [h, List.inj_on_of_nodup_map hl hy hx (hky.trans hk.symm)]

/-- The same keys with other values. -/
def mapValues {μ : Type*} (d : Dict κ ν) (g : ν → μ) : Dict κ μ where
  entries := d.entries.map fun e => (e.1, g e.2)
  distinct := by
    rw [List.map_map]
    exact d.distinct

theorem get_mapValues {μ : Type*} {g : ν → μ} : (d.mapValues g).get k = (d.get k).map g := by
  unfold get mapValues
  rw [List.find?_map, Option.map_map, Option.map_map]
  rfl

end Dict

/-! ### Groups -/

section

variable {α ξ : Type} [DecidableEq ξ] {key : α → ξ} {l : List α} {k : ξ}

namespace Dict

/-- Groups by key, each in the order of the list. -/
def groupBy (key : α → ξ) (l : List α) : Dict ξ (List α) :=
  gather key (fun x o => o.getD [] ++ [x]) l

theorem eq_of_get_groupBy {ys : List α} (h : (groupBy key l).get k = some ys) :
    ys = l.filter fun x => key x = k := by
  have hfold : ∀ (xs : List α) (o : Option (List α)),
      (xs.foldl (fun o x => some (o.getD [] ++ [x])) o).getD [] = o.getD [] ++ xs := by
    intro xs
    induction xs with
    | nil => exact fun o => (List.append_nil _).symm
    | cons x xs ih =>
      intro o
      rw [List.foldl_cons, ih, Option.getD_some, List.append_assoc]
      rfl
  have hget := hfold (l.filter fun x => key x = k) none
  unfold groupBy at h
  rw [get_gather] at h
  rw [h] at hget
  exact hget

theorem sublist_of_mem_groupBy {ys : List α} (h : ys ∈ (groupBy key l).values) : ys.Sublist l := by
  obtain ⟨k, hk⟩ := mem_values.mp h
  rw [eq_of_get_groupBy hk]
  exact List.filter_sublist

/-- **The groups of a list are the list.** -/
theorem groupBy_perm : (groupBy key l).values.flatten.Perm l := by
  have hvalues : (groupBy key l).values = ((groupBy key l).entries.map Prod.fst).map
      fun k => l.filter fun x => key x = k := by
    unfold values
    rw [List.map_map]
    refine List.map_congr_left fun e he => ?_
    exact eq_of_get_groupBy (mem_entries.mp he)
  rw [hvalues, ← List.flatMap_def]
  refine Keyed.flatMap_filter_perm (groupBy key l).distinct fun x hx => ?_
  obtain ⟨ys, hys⟩ := @get_gather_of_mem _ _ _ _ key (fun x o => o.getD [] ++ [x]) l x hx
  exact List.mem_map.mpr ⟨(key x, ys), mem_entries.mpr hys, rfl⟩

end Dict

end

/-! ### Statements on the row of one key -/

namespace Keyed.Table

variable {ρ κ : Type*} [DecidableEq κ] {key : ρ → κ} {t t' : Table ρ κ key} {k k' : κ} {r : ρ}

theorem find_put : (t.put r).find k = if key r = k then some r else t.find k := by
  split
  · next h => exact find_eq_some.mpr ⟨mem_put.mpr (.inl rfl), h⟩
  · next h =>
    refine find_congr fun x hx => ?_
    rw [mem_put]
    constructor
    · rintro (rfl | ⟨hmem, -⟩)
      · exact absurd hx h
      · exact hmem
    · intro hmem
      exact .inr ⟨hmem, fun he => h (he.symm.trans hx)⟩

theorem mem_iff_find : r ∈ t ↔ t.find (key r) = some r := by
  rw [find_eq_some]
  exact (and_iff_left rfl).symm

/-- `INSERT … ON CONFLICT DO UPDATE`: the row, or the update of the row that is there. -/
def insertOr (t : Table ρ κ key) (new : ρ) (update : ρ → ρ) : Table ρ κ key :=
  match t.find (key new) with
  | none => t.put new
  | some old => t.put (update old)

/-- `INSERT … ON CONFLICT DO NOTHING`. -/
def insertOrIgnore (t : Table ρ κ key) (new : ρ) : Table ρ κ key :=
  match t.find (key new) with
  | none => t.put new
  | some _ => t

theorem mem_insertOrIgnore {new : ρ} :
    r ∈ t.insertOrIgnore new ↔ r ∈ t ∨ t.find (key new) = none ∧ r = new := by
  unfold insertOrIgnore
  cases hf : t.find (key new) with
  | none =>
    have hne : ∀ x ∈ t, key x ≠ key new := find_eq_none.mp hf
    simp only [mem_put, true_and]
    constructor
    · rintro (rfl | ⟨hmem, -⟩)
      · exact .inr rfl
      · exact .inl hmem
    · rintro (hmem | rfl)
      · exact .inr ⟨hmem, hne r hmem⟩
      · exact .inl rfl
  | some old => simp

theorem exists_mem_insertOrIgnore (new : ρ) : ∃ x ∈ t.insertOrIgnore new, key x = key new := by
  rcases Option.eq_none_or_eq_some (t.find (key new)) with hf | ⟨old, hf⟩
  · exact ⟨new, mem_insertOrIgnore.mpr (.inr ⟨hf, rfl⟩), rfl⟩
  · obtain ⟨hmem, hkey⟩ := find_eq_some.mp hf
    exact ⟨old, mem_insertOrIgnore.mpr (.inl hmem), hkey⟩

theorem find_insertOr {new : ρ} {update : ρ → ρ}
    (h : ∀ old, key old = key new → key (update old) = key new) :
    (t.insertOr new update).find k =
      if key new = k then some ((t.find k).elim new update) else t.find k := by
  unfold insertOr
  cases hf : t.find (key new) with
  | none =>
    simp only [find_put]
    by_cases hk : key new = k
    · rw [if_pos hk, if_pos hk, ← hk, hf]
      rfl
    · rw [if_neg hk, if_neg hk]
  | some old =>
    have hold : key old = key new := (find_eq_some.mp hf).2
    simp only [find_put, h old hold]
    by_cases hk : key new = k
    · rw [if_pos hk, if_pos hk, ← hk, hf]
      rfl
    · rw [if_neg hk, if_neg hk]

theorem find_insertOrIgnore {new : ρ} :
    (t.insertOrIgnore new).find k =
      if key new = k then some ((t.find k).getD new) else t.find k := by
  unfold insertOrIgnore
  cases hf : t.find (key new) with
  | none =>
    simp only [find_put]
    by_cases hk : key new = k
    · rw [if_pos hk, if_pos hk, ← hk, hf]
      rfl
    · rw [if_neg hk, if_neg hk]
  | some old =>
    by_cases hk : key new = k
    · rw [if_pos hk, ← hk, hf]
      rfl
    · rw [if_neg hk]

/-- `DELETE … WHERE`. -/
def deleteWhere (t : Table ρ κ key) (p : ρ → Bool) : Table ρ κ key where
  rows := t.rows.filter fun r => ! p r
  distinct := t.distinct.sublist (List.filter_sublist.map key)

theorem mem_deleteWhere {p : ρ → Bool} : r ∈ t.deleteWhere p ↔ r ∈ t ∧ p r = false := by
  simp [mem_def, deleteWhere]

/-- `UPDATE … WHERE`. -/
def updateWhere (t : Table ρ κ key) (p : ρ → Bool) (f : ρ → ρ) (hf : ∀ r, key (f r) = key r) :
    Table ρ κ key where
  rows := t.rows.map fun r => if p r then f r else r
  distinct := by
    have hmap : (t.rows.map fun r => if p r then f r else r).map key = t.rows.map key := by
      rw [List.map_map]
      refine List.map_congr_left fun r _ => ?_
      show key (if p r then f r else r) = key r
      split
      · exact hf r
      · rfl
    rw [hmap]
    exact t.distinct

theorem mem_updateWhere {p : ρ → Bool} {f : ρ → ρ} {hf : ∀ r, key (f r) = key r} :
    r ∈ t.updateWhere p f hf ↔ ∃ x ∈ t, r = if p x then f x else x := by
  simp only [mem_def, updateWhere, List.mem_map, eq_comm]

/-- **What statements leave at a key** depends on those about the key only. -/
theorem find_foldl {α : Type*} {op : Table ρ κ key → α → Table ρ κ key} {about : α → κ}
    {f : α → Option ρ → Option ρ}
    (h : ∀ t x k, (op t x).find k = if about x = k then f x (t.find k) else t.find k) (xs : List α) :
    (xs.foldl op t).find k = (xs.filter fun x => about x = k).foldl (fun o x => f x o) (t.find k) := by
  induction xs generalizing t with
  | nil => rfl
  | cons x xs ih =>
    rw [List.foldl_cons, ih, h, List.filter_cons]
    by_cases hk : about x = k
    · rw [if_pos hk, if_pos (decide_eq_true hk), List.foldl_cons]
    · rw [if_neg hk, if_neg (by simpa using hk)]

/-- Tables with the same rows; their order means nothing. -/
def Same (t t' : Table ρ κ key) : Prop := ∀ r, r ∈ t ↔ r ∈ t'

theorem Same.symm (h : Same t t') : Same t' t := fun r => (h r).symm

theorem Same.trans {u : Table ρ κ key} (h : Same t t') (h' : Same t' u) : Same t u :=
  fun r => (h r).trans (h' r)

theorem same_iff_find : Same t t' ↔ ∀ k, t.find k = t'.find k := by
  constructor
  · exact fun h k => find_congr fun r _ => h r
  · intro h r
    rw [mem_iff_find, mem_iff_find, h]

/-- **A condition on the rows** selects the same from tables that agree on what it selects. -/
theorem perm_filter {p q : ρ → Bool} (h : ∀ r, r ∈ t ∧ p r ↔ r ∈ t' ∧ q r) :
    (t.rows.filter p).Perm (t'.rows.filter q) := by
  refine (List.perm_ext_iff_of_nodup (t.nodup.filter _) (t'.nodup.filter _)).mpr fun r => ?_
  rw [List.mem_filter, List.mem_filter]
  exact h r

/-- **Batches**: what each of them leaves is what its rows leave one by one, so it does not matter
how the batches are cut. -/
theorem same_foldl_batches {α γ : Type*} {op : Table ρ κ key → γ → Table ρ κ key} {about : γ → κ}
    {f : γ → Option ρ → Option ρ} {rowsOf : α → List γ}
    {handle : Table ρ κ key → List α → Table ρ κ key} {batches : List (List α)}
    (hop : ∀ t x k, (op t x).find k = if about x = k then f x (t.find k) else t.find k)
    (hhandle : ∀ t, ∀ b ∈ batches, Same (handle t b) ((b.flatMap rowsOf).foldl op t)) :
    Same (batches.foldl handle t) ((batches.flatten.flatMap rowsOf).foldl op t) := by
  rw [same_iff_find]
  intro k
  suffices hfrom : ∀ t', t.find k = t'.find k →
      (batches.foldl handle t).find k = ((batches.flatten.flatMap rowsOf).foldl op t').find k from
    hfrom t rfl
  induction batches generalizing t with
  | nil => exact fun t' h => h
  | cons b bs ih =>
    intro t' h
    rw [List.foldl_cons, List.flatten_cons, List.flatMap_append, List.foldl_append]
    refine ih (fun t b hb => hhandle t b (List.mem_cons_of_mem _ hb)) _ ?_
    rw [same_iff_find.mp (hhandle t b List.mem_cons_self) k, find_foldl hop, find_foldl hop, h]

end Keyed.Table
