/-
The merged documentation of the gateway.

Every service publishes a document of its own; the edge merges what its route table leads to.  A
schema whose name is taken by another one gets the service's label in front, and the service's
references to it are rewritten in the text of its document.  (A string is rewritten where it is a
reference as a whole: its quotes are in the pattern.  The exception is a string that ends in a
reference behind a quote of its own, which `json.dumps` escapes and the pattern matches all the same;
no document here has one.  The names of schemas are OpenAPI's: letters, digits, dots, hyphens and
underscores, which are not escaped.  The names of schemas and paths are no references.)
JSON values are any type whose equality is that of the comparison in `merge_specs`.

* `Values`, `Spec`, `Doc` — what the merge reads and writes of a document;
* `collisions`, `rewrite`, `merge` — one service more;
* `Faithful` — every schema of a service is there, under the service's name for it;
* `Keeps`, `faithful_merge_iff` — a schema that is shared must not refer to one that is renamed;
* `lookup_mergeAll`, `matchRule_of_fills` — what is listed, and that it can be called;
* `merged_of_fresh` — all of it, for any documents whose names have no label in front.
-/
import SmartFoodOps.Edge.Routing
import SmartFoodOps.Lib.Dict
import Mathlib.Data.List.Forall2

namespace Edge.OpenApi

/-! ### Documents -/

/-- The text replacement on a value, and the assignment of `security`. -/
structure Values (J : Type) where
  rewritten : (String → String) → J → J
  rewritten_id : ∀ j, rewritten (fun s => s) j = j
  secured : J → J

variable {J : Type}

/-- The schemas by name, and the operations by path and method. -/
structure Spec (J : Type) where
  schemas : Dict String J
  paths : Dict String (Dict String J)

abbrev Service (J : Type) := Upstream × Spec J

/-- `_service_label`. -/
def label : Upstream → String
  | .identity => "Identity"
  | .catalog => "Catalog"
  | .inventory => "Inventory"
  | .order => "Order"
  | .notification => "Notification"
  | .dispatch => "Dispatch"
  | .assistant => "Assistant"
  | .analytics => "Analytics"

def prefixed (u : Upstream) (name : String) : String := label u ++ "_" ++ name

def refOf (name : String) : String := "#/components/schemas/" ++ name

/-- The merged document; `renamed` is history only. -/
structure Doc (J : Type) where
  schemas : Dict String J
  paths : Dict String (Dict String J)
  renamed : Upstream → List String

def Doc.empty : Doc J := ⟨.empty, .empty, fun _ => []⟩

/-! ### One service more -/

/-- The names that another schema has. -/
def collisions [DecidableEq J] (doc : Doc J) (spec : Spec J) : List String :=
  (spec.schemas.entries.filter fun e => (doc.schemas.get e.1).any (· ≠ e.2)).map Prod.fst

def newName (u : Upstream) (names : List String) (name : String) : String :=
  if name ∈ names then prefixed u name else name

/-- The replacements, one after the other. -/
def rewrite (u : Upstream) (names : List String) (s : String) : String :=
  names.foldl (fun s n => if s = refOf n then refOf (prefixed u n) else s) s

def httpMethods : List String := ["get", "post", "put", "patch", "delete", "head"]

section

variable (values : Values J)

/-- An operation, as it is documented. -/
def published (rule : Rule) (method : String) (operation : J) : J :=
  if needsAuth rule method.toUpper then values.secured operation else operation

/-- The operations of a service that the route table leads to. -/
def listed (g : String → String) (spec : Spec J) : List (String × String × J) :=
  spec.paths.entries.flatMap fun e =>
    match matchRule e.1 with
    | none => []
    | some rule => e.2.entries.filterMap fun o =>
      if o.1 ∈ httpMethods then
        some (e.1, o.1, published values rule o.1 (values.rewritten g o.2))
      else none

def merge [DecidableEq J] (doc : Doc J) (service : Service J) : Doc J :=
  let (u, spec) := service
  let names := collisions doc spec
  let g := rewrite u names
  { schemas := spec.schemas.entries.foldl
      (fun d e => d.alter (newName u names e.1) fun _ => values.rewritten g e.2) doc.schemas
    paths := (listed values g spec).foldl
      (fun d o => d.alter o.1 fun ops => (ops.getD .empty).alter o.2.1 fun _ => o.2.2) doc.paths
    renamed := Function.update doc.renamed u names }

def mergeAll [DecidableEq J] (services : List (Service J)) : Doc J :=
  services.foldl (merge values) .empty

/-- `sorted(specs)`: by the attribute that has the service's address. -/
def rank : Upstream → ℕ
  | .analytics => 0
  | .assistant => 1
  | .catalog => 2
  | .dispatch => 3
  | .identity => 4
  | .inventory => 5
  | .notification => 6
  | .order => 7

/-- `merge_specs`; the upstreams that could not be asked are only named in it. -/
def mergeSpecs [DecidableEq J] (specs : Dict Upstream (Spec J)) : Doc J :=
  mergeAll values (specs.entries.insertionSort fun a b => rank a.1 ≤ rank b.1)

/-! ### What the document should say -/

/-- The schemas of a service, under its names for them. -/
def Copied (doc : Doc J) (service : Service J) : Prop :=
  ∀ name schema, service.2.schemas.get name = some schema →
    doc.schemas.get (newName service.1 (doc.renamed service.1) name) =
      some (values.rewritten (rewrite service.1 (doc.renamed service.1)) schema)

def Faithful (doc : Doc J) (services : List (Service J)) : Prop :=
  ∀ service ∈ services, Copied values doc service

/-- A schema that the service shares does not refer to one that is renamed for it. -/
def Keeps [DecidableEq J] (doc : Doc J) (service : Service J) : Prop :=
  ∀ name schema, service.2.schemas.get name = some schema → doc.schemas.get name = some schema →
    values.rewritten (rewrite service.1 (collisions doc service.2)) schema = schema

/-- No name of a schema begins with a label. -/
def Fresh (service : Service J) : Prop :=
  ∀ name schema, service.2.schemas.get name = some schema → ∀ u n, name ≠ prefixed u n

end

/-! ### Names -/

theorem takeWhile_label {u : Upstream} {l : List Char} :
    ((label u).toList ++ '_' :: l).takeWhile (· ≠ '_') = (label u).toList := by
  have hall : (label u).toList.all (fun c => decide (c ≠ '_')) = true := by cases u <;> rfl
  rw [List.takeWhile_append_of_pos (List.all_eq_true.mp hall)]
  simp

theorem eq_of_label {u v : Upstream} (h : label u = label v) : u = v := by
  cases u <;> cases v <;> first | rfl | exact absurd h (by decide +kernel)

/-- No label has an underscore. -/
theorem prefixed_inj {u v : Upstream} {m n : String} :
    prefixed u m = prefixed v n ↔ u = v ∧ m = n := by
  constructor
  · intro h
    have hlist : (label u).toList ++ '_' :: m.toList = (label v).toList ++ '_' :: n.toList := by
      have h' := congrArg String.toList h
      simpa [prefixed, String.toList_append] using h'
    have hlabel : label u = label v := by
      have h' := congrArg (List.takeWhile (· ≠ '_')) hlist
      rw [takeWhile_label, takeWhile_label] at h'
      exact String.toList_inj.mp h'
    rw [hlabel] at hlist
    exact ⟨eq_of_label hlabel,
      String.toList_inj.mp (List.cons.inj (List.append_cancel_left hlist)).2⟩
  · rintro ⟨rfl, rfl⟩
    rfl

theorem refOf_inj {m n : String} : refOf m = refOf n ↔ m = n := String.append_right_inj _

/-- References follow the names. -/
theorem rewrite_refOf {u : Upstream} {names : List String} {name : String}
    (h : ∀ m ∈ names, ∀ n, m ≠ prefixed u n) :
    rewrite u names (refOf name) = refOf (newName u names name) := by
  unfold rewrite newName
  induction names generalizing name with
  | nil => rfl
  | cons m names ih =>
    have hrest := fun k hk => h k (List.mem_cons_of_mem m hk)
    rw [List.foldl_cons]
    by_cases hm : name = m
    · subst hm
      have hnot : prefixed u name ∉ names := fun hmem => hrest _ hmem name rfl
      rw [if_pos rfl, ih hrest, if_neg hnot, if_pos List.mem_cons_self]
    · rw [if_neg fun he => hm (refOf_inj.mp he), ih hrest]
      simp only [List.mem_cons, hm, false_or]

/-- Different schemas of a service have different names. -/
theorem newName_inj {u : Upstream} {spec : Spec J} {names : List String} {a b : String} {x y : J}
    (hfresh : Fresh (u, spec)) (ha : spec.schemas.get a = some x)
    (hb : spec.schemas.get b = some y) :
    newName u names a = newName u names b ↔ a = b := by
  refine ⟨fun h => ?_, congrArg _⟩
  unfold newName at h
  split at h
  · split at h
    · exact (prefixed_inj.mp h).2
    · exact absurd h.symm (hfresh b y hb u a)
  · split at h
    · exact absurd h (hfresh a x ha u b)
    · exact h

/-- Different services, whose names have no label in front. -/
structure Apart (services : List (Service J)) : Prop where
  nodup : (services.map Prod.fst).Nodup
  fresh : ∀ s ∈ services, Fresh s

theorem Apart.of_prefix {done services : List (Service J)} (h : Apart services)
    (hp : done <+: services) : Apart done where
  nodup := h.nodup.sublist (hp.sublist.map Prod.fst)
  fresh s hs := h.fresh s (hp.subset hs)

theorem Apart.ne {done : List (Service J)} {s : Service J} (h : Apart (done ++ [s])) :
    ∀ s' ∈ done, s'.1 ≠ s.1 := by
  have hnodup := h.nodup
  rw [List.map_append, List.nodup_append] at hnodup
  exact fun s' hs' => hnodup.2.2 _ (List.mem_map_of_mem hs') _ (List.mem_singleton_self _)

theorem mem_collisions [DecidableEq J] {doc : Doc J} {spec : Spec J} {name : String} :
    name ∈ collisions doc spec ↔ ∃ schema v, spec.schemas.get name = some schema ∧
      doc.schemas.get name = some v ∧ v ≠ schema := by
  unfold collisions
  rw [List.mem_map]
  constructor
  · rintro ⟨⟨name, schema⟩, he, rfl⟩
    obtain ⟨he, hany⟩ := List.mem_filter.mp he
    obtain ⟨v, hv, hne⟩ := (Option.any_eq_true _ _).mp hany
    exact ⟨schema, v, Dict.mem_entries.mp he, hv, of_decide_eq_true hne⟩
  · rintro ⟨schema, v, hs, hv, hne⟩
    refine ⟨(name, schema), List.mem_filter.mpr ⟨Dict.mem_entries.mpr hs, ?_⟩, rfl⟩
    exact (Option.any_eq_true _ _).mpr ⟨v, hv, decide_eq_true hne⟩

/-! ### Schemas -/

section

variable [DecidableEq J] {values : Values J} {doc : Doc J} {done services : List (Service J)}
  {u : Upstream} {spec : Spec J} {name k : String} {schema : J}

theorem get_merge : (merge values doc (u, spec)).schemas.get k =
    (spec.schemas.entries.filter fun e => newName u (collisions doc spec) e.1 = k).foldl
      (fun _ e => some (values.rewritten (rewrite u (collisions doc spec)) e.2))
      (doc.schemas.get k) :=
  @Dict.get_foldl_alter String J (String × J) _ doc.schemas k
    (fun e => newName u (collisions doc spec) e.1)
    (fun e _ => values.rewritten (rewrite u (collisions doc spec)) e.2) spec.schemas.entries

theorem get_merge_of_get (hfresh : Fresh (u, spec)) (hs : spec.schemas.get name = some schema) :
    (merge values doc (u, spec)).schemas.get (newName u (collisions doc spec) name) =
      some (values.rewritten (rewrite u (collisions doc spec)) schema) := by
  have hfilter : (spec.schemas.entries.filter fun e => newName u (collisions doc spec) e.1 =
      newName u (collisions doc spec) name) = spec.schemas.entries.filter fun e => e.1 = name := by
    refine List.filter_congr fun e he => ?_
    rw [decide_eq_decide]
    exact newName_inj hfresh (Dict.mem_entries.mp he) hs
  rw [get_merge, hfilter, Dict.filter_entries, hs]
  rfl

theorem get_merge_of_ne (h : ∀ name schema, spec.schemas.get name = some schema →
    newName u (collisions doc spec) name ≠ k) :
    (merge values doc (u, spec)).schemas.get k = doc.schemas.get k := by
  have hnil : (spec.schemas.entries.filter fun e =>
      newName u (collisions doc spec) e.1 = k) = [] :=
    List.filter_eq_nil_iff.mpr fun e he hk =>
      h e.1 e.2 (Dict.mem_entries.mp he) (of_decide_eq_true hk)
  rw [get_merge, hnil]
  rfl

theorem renamed_merge_self : (merge values doc (u, spec)).renamed u = collisions doc spec :=
  Function.update_self u _ doc.renamed

theorem renamed_merge_of_ne {v : Upstream} (h : v ≠ u) :
    (merge values doc (u, spec)).renamed v = doc.renamed v :=
  Function.update_of_ne h _ doc.renamed

/-- What is merged has a service and its name for it, and no label is in front of a renamed one. -/
structure Inv (doc : Doc J) (done : List (Service J)) : Prop where
  named : ∀ k v, doc.schemas.get k = some v → ∃ s ∈ done, ∃ name schema,
    s.2.schemas.get name = some schema ∧ k = newName s.1 (doc.renamed s.1) name
  fresh : ∀ v, ∀ m ∈ doc.renamed v, ∀ w n, m ≠ prefixed w n

theorem Inv.merge (hi : Inv doc done) (hnew : ∀ s ∈ done, s.1 ≠ u) (hfresh : Fresh (u, spec)) :
    Inv (merge values doc (u, spec)) (done ++ [(u, spec)]) where
  named k v h := by
    by_cases hk : ∃ name schema, spec.schemas.get name = some schema ∧
        newName u (collisions doc spec) name = k
    · obtain ⟨name, schema, hs, rfl⟩ := hk
      refine ⟨(u, spec), List.mem_append_right _ (List.mem_singleton_self _), name, schema, hs, ?_⟩
      rw [renamed_merge_self]
    · rw [get_merge_of_ne fun name schema hs he => hk ⟨name, schema, hs, he⟩] at h
      obtain ⟨s, hs, name, schema, hget, rfl⟩ := hi.named k v h
      refine ⟨s, List.mem_append_left _ hs, name, schema, hget, ?_⟩
      rw [renamed_merge_of_ne (hnew s hs)]
  fresh v m hm w n := by
    by_cases hv : v = u
    · subst hv
      rw [renamed_merge_self] at hm
      obtain ⟨schema, -, hs, -⟩ := mem_collisions.mp hm
      exact hfresh m schema hs w n
    · rw [renamed_merge_of_ne hv] at hm
      exact hi.fresh v m hm w n

/-- A service is copied as it is merged. -/
theorem copied_merge (hfresh : Fresh (u, spec)) :
    Copied values (merge values doc (u, spec)) (u, spec) := by
  intro name schema hs
  rw [renamed_merge_self]
  exact get_merge_of_get hfresh hs

/-- A shared schema that is kept does not hurt the services before. -/
theorem Keeps.copied (hk : Keeps values doc (u, spec)) (hfresh : Fresh (u, spec))
    {s : Service J} (hu : s.1 ≠ u) (hs : Fresh s) (hc : Copied values doc s) :
    Copied values (merge values doc (u, spec)) s := by
  intro name schema hget
  rw [renamed_merge_of_ne hu]
  have hold := hc name schema hget
  by_cases hk' : ∃ name' schema', spec.schemas.get name' = some schema' ∧
      newName u (collisions doc spec) name' = newName s.1 (doc.renamed s.1) name
  · obtain ⟨name', schema', hget', he⟩ := hk'
    by_cases hmem : name' ∈ collisions doc spec
    · -- the label tells the services apart
      have he' : prefixed u name' = newName s.1 (doc.renamed s.1) name := by
        rw [← he]
        exact (if_pos hmem).symm
      unfold newName at he'
      split at he'
      · exact absurd (prefixed_inj.mp he').1.symm hu
      · exact absurd he'.symm (hs name schema hget u name')
    · have hname : newName u (collisions doc spec) name' = name' := if_neg hmem
      have hmerged : (merge values doc (u, spec)).schemas.get
          (newName u (collisions doc spec) name') =
            some (values.rewritten (rewrite u (collisions doc spec)) schema') :=
        get_merge_of_get hfresh hget'
      rw [hname] at he hmerged
      rw [← he] at hold ⊢
      -- both services have the same schema under the name
      have hsame : values.rewritten (rewrite s.1 (doc.renamed s.1)) schema = schema' := by
        by_contra hne
        exact hmem (mem_collisions.mpr ⟨schema', _, hget', hold, hne⟩)
      rw [hsame] at hold ⊢
      exact hmerged.trans (congrArg some (hk name' schema' hget' hold))
  · rw [get_merge_of_ne fun name' schema' hget' he => hk' ⟨name', schema', hget', he⟩]
    exact hold

/-- Without a collision nothing is rewritten. -/
theorem keeps_of_collisions (h : collisions doc spec = []) : Keeps values doc (u, spec) := by
  intro name schema _ _
  show values.rewritten (rewrite u (collisions doc spec)) schema = schema
  rw [h]
  exact values.rewritten_id schema

/-- **One service more**: the document stays right exactly if the shared schemas are kept. -/
theorem faithful_merge_iff (hi : Inv doc done) (hf : Faithful values doc done)
    (hnew : ∀ s ∈ done, s.1 ≠ u) (hfresh : Fresh (u, spec)) (hdone : ∀ s ∈ done, Fresh s) :
    Faithful values (merge values doc (u, spec)) (done ++ [(u, spec)]) ↔
      Keeps values doc (u, spec) := by
  constructor
  · intro h name schema hs hdoc
    have hmem : name ∉ collisions doc spec := by
      intro hmem
      obtain ⟨schema', v, hs', hv, hne⟩ := mem_collisions.mp hmem
      rw [hs] at hs'
      rw [hdoc] at hv
      exact hne ((Option.some.inj hv).symm.trans (Option.some.inj hs'))
    have hmerged : (merge values doc (u, spec)).schemas.get (newName u (collisions doc spec) name) =
        some (values.rewritten (rewrite u (collisions doc spec)) schema) :=
      get_merge_of_get hfresh hs
    rw [show newName u (collisions doc spec) name = name from if_neg hmem] at hmerged
    -- the service that has had it still has it
    obtain ⟨s, hmem', name', schema', hget, hname⟩ := hi.named name schema hdoc
    have hold := hf s hmem' name' schema' hget
    have hkept := h s (List.mem_append_left _ hmem') name' schema' hget
    rw [renamed_merge_of_ne (hnew s hmem'), ← hname, hmerged] at hkept
    rw [← hname, hdoc] at hold
    exact (Option.some.inj hkept).trans (Option.some.inj hold).symm
  · intro hk s hs
    rcases List.mem_append.mp hs with hs | hs
    · exact hk.copied hfresh (hnew s hs) (hdone s hs) (hf s hs)
    · rw [List.mem_singleton.mp hs]
      exact copied_merge hfresh

theorem mergeAll_concat {s : Service J} :
    mergeAll values (done ++ [s]) = merge values (mergeAll values done) s := by
  unfold mergeAll
  rw [List.foldl_append]
  rfl

theorem inv_mergeAll (h : Apart services) : Inv (mergeAll values services) services := by
  induction services using List.reverseRecOn with
  | nil => exact ⟨nofun, nofun⟩
  | append_singleton done s ih =>
    rw [mergeAll_concat]
    exact (ih (h.of_prefix (List.prefix_append _ _))).merge h.ne
      (h.fresh s (List.mem_append_right _ (List.mem_singleton_self s)))

theorem faithful_iff (h : Apart services) :
    (∀ done, done <+: services → Faithful values (mergeAll values done) done) ↔
      ∀ done s, done ++ [s] <+: services → Keeps values (mergeAll values done) s := by
  have hstep : ∀ done s, done ++ [s] <+: services →
      Faithful values (mergeAll values done) done →
      (Faithful values (mergeAll values (done ++ [s])) (done ++ [s]) ↔
        Keeps values (mergeAll values done) s) := by
    intro done s hp hf
    have hall := h.of_prefix hp
    have hdone := hall.of_prefix (List.prefix_append done [s])
    rw [mergeAll_concat]
    exact faithful_merge_iff (inv_mergeAll hdone) hf hall.ne
      (hall.fresh s (List.mem_append_right _ (List.mem_singleton_self s))) hdone.fresh
  constructor
  · intro hf done s hp
    exact (hstep done s hp (hf done ((List.prefix_append _ _).trans hp))).mp (hf _ hp)
  · intro hk done
    induction done using List.reverseRecOn with
    | nil => exact fun _ s hs => by cases hs
    | append_singleton done s ih =>
      intro hp
      exact (hstep done s hp (ih ((List.prefix_append _ _).trans hp))).mpr (hk done s hp)

end

/-! ### Paths -/

/-- The operation of a path and a method. -/
def lookup (paths : Dict String (Dict String J)) (path method : String) : Option J :=
  (paths.get path).bind (·.get method)

theorem lookup_alter {paths : Dict String (Dict String J)} {o : String × String × J}
    {path method : String} :
    lookup (paths.alter o.1 fun ops => (ops.getD .empty).alter o.2.1 fun _ => o.2.2) path method =
      if o.1 = path ∧ o.2.1 = method then some o.2.2 else lookup paths path method := by
  unfold lookup
  rw [Dict.get_alter]
  by_cases hp : o.1 = path
  · subst hp
    rw [if_pos rfl, Option.bind_some, Dict.get_alter]
    by_cases hm : o.2.1 = method
    · rw [if_pos hm, if_pos ⟨rfl, hm⟩]
    · rw [if_neg hm, if_neg fun h => hm h.2]
      cases paths.get o.1 <;> rfl
  · rw [if_neg hp, if_neg fun h => hp h.1]

/-- The operations that are added to those that are there. -/
theorem lookup_foldl {l : List (String × String × J)} {paths : Dict String (Dict String J)}
    {path method : String} :
    (∀ op, lookup (l.foldl (fun d o => d.alter o.1 fun ops =>
        (ops.getD .empty).alter o.2.1 fun _ => o.2.2) paths) path method = some op →
      (path, method, op) ∈ l ∨ lookup paths path method = some op) ∧
    ((∃ op, (path, method, op) ∈ l) ∨ (lookup paths path method).isSome →
      (lookup (l.foldl (fun d o => d.alter o.1 fun ops =>
        (ops.getD .empty).alter o.2.1 fun _ => o.2.2) paths) path method).isSome) := by
  induction l generalizing paths with
  | nil => exact ⟨fun op h => .inr h, fun h => h.resolve_left fun ⟨op, hop⟩ => by cases hop⟩
  | cons o l ih =>
    obtain ⟨hfrom, hto⟩ := @ih (paths.alter o.1 fun ops =>
      (ops.getD .empty).alter o.2.1 fun _ => o.2.2)
    rw [lookup_alter] at hfrom hto
    refine ⟨fun op h => ?_, fun h => hto ?_⟩
    · rcases hfrom op h with hmem | hold
      · exact .inl (List.mem_cons_of_mem _ hmem)
      · split at hold
        · next heq =>
          obtain rfl := Option.some.inj hold
          obtain ⟨rfl, rfl⟩ := heq
          exact .inl List.mem_cons_self
        · exact .inr hold
    · by_cases heq : o.1 = path ∧ o.2.1 = method
      · rw [if_pos heq]
        exact .inr rfl
      · rw [if_neg heq]
        refine h.imp (fun ⟨op, hop⟩ => ⟨op, ?_⟩) id
        refine (List.mem_cons.mp hop).resolve_left ?_
        rintro rfl
        exact heq ⟨rfl, rfl⟩

theorem mem_listed {values : Values J} {g : String → String} {spec : Spec J}
    {path method : String} {op : J} : (path, method, op) ∈ listed values g spec ↔
      ∃ rule ops operation, matchRule path = some rule ∧ spec.paths.get path = some ops ∧
        method ∈ httpMethods ∧ ops.get method = some operation ∧
        op = published values rule method (values.rewritten g operation) := by
  unfold listed
  rw [List.mem_flatMap]
  constructor
  · rintro ⟨⟨path', ops⟩, he, hmem⟩
    cases hrule : matchRule path' with
    | none =>
      simp only [hrule] at hmem
      cases hmem
    | some rule =>
      simp only [hrule] at hmem
      obtain ⟨⟨method', operation⟩, ho, hsome⟩ := List.mem_filterMap.mp hmem
      split at hsome
      · next hhttp =>
        obtain ⟨rfl, h⟩ := Prod.mk.inj (Option.some.inj hsome)
        obtain ⟨rfl, rfl⟩ := Prod.mk.inj h
        exact ⟨rule, ops, operation, hrule, Dict.mem_entries.mp he, hhttp, Dict.mem_entries.mp ho,
          rfl⟩
      · cases hsome
  · rintro ⟨rule, ops, operation, hrule, hpath, hhttp, hmethod, rfl⟩
    refine ⟨(path, ops), Dict.mem_entries.mpr hpath, ?_⟩
    simp only [hrule]
    exact List.mem_filterMap.mpr ⟨(method, operation), Dict.mem_entries.mpr hmethod, if_pos hhttp⟩

/-- **What is listed**: an operation of a service, and for each of them there is one. -/
theorem lookup_mergeAll [DecidableEq J] {values : Values J} {services : List (Service J)}
    {path method : String} (h : Apart services) :
    (∀ op, lookup (mergeAll values services).paths path method = some op → ∃ s ∈ services,
      (path, method, op) ∈
        listed values (rewrite s.1 ((mergeAll values services).renamed s.1)) s.2) ∧
    ∀ s ∈ services, ∀ op, (path, method, op) ∈
        listed values (rewrite s.1 ((mergeAll values services).renamed s.1)) s.2 →
      (lookup (mergeAll values services).paths path method).isSome := by
  induction services using List.reverseRecOn with
  | nil => exact ⟨nofun, nofun⟩
  | append_singleton done s ih =>
    obtain ⟨hfrom, hto⟩ := ih (h.of_prefix (List.prefix_append _ _))
    obtain ⟨u, spec⟩ := s
    have hold : ∀ s ∈ done, (mergeAll values (done ++ [(u, spec)])).renamed s.1 =
        (mergeAll values done).renamed s.1 := by
      intro s hs
      rw [mergeAll_concat]
      exact renamed_merge_of_ne (h.ne s hs)
    have hself : (mergeAll values (done ++ [(u, spec)])).renamed u =
        collisions (mergeAll values done) spec := by
      rw [mergeAll_concat]
      exact renamed_merge_self
    have hpaths := @lookup_foldl J
      (listed values (rewrite u (collisions (mergeAll values done) spec)) spec)
      (mergeAll values done).paths path method
    have hmerge : (mergeAll values (done ++ [(u, spec)])).paths =
        (listed values (rewrite u (collisions (mergeAll values done) spec)) spec).foldl (fun d o =>
          d.alter o.1 fun ops => (ops.getD .empty).alter o.2.1 fun _ => o.2.2)
          (mergeAll values done).paths := by
      rw [mergeAll_concat]
      rfl
    rw [hmerge]
    refine ⟨fun op hop => ?_, fun s hs op hop => hpaths.2 ?_⟩
    · rcases hpaths.1 op hop with hmem | hlook
      · refine ⟨(u, spec), List.mem_append_right _ (List.mem_singleton_self _), ?_⟩
        rw [hself]
        exact hmem
      · obtain ⟨s, hs, hmem⟩ := hfrom op hlook
        refine ⟨s, List.mem_append_left _ hs, ?_⟩
        rw [hold s hs]
        exact hmem
    · rcases List.mem_append.mp hs with hs | hs
      · rw [hold s hs] at hop
        exact .inr (hto s hs op hop)
      · obtain rfl := List.mem_singleton.mp hs
        rw [hself] at hop
        exact .inl ⟨op, hop⟩

/-! ### Calls -/

/-- The path of a request, with something in the place of every parameter. -/
def Fills (template path : String) : Prop :=
  List.Forall₂ (fun t p => t = p ∨ t.head? = some '{') (segments template) (segments path)

theorem rules_literal : ∀ rule ∈ rules, ∀ t ∈ rule.segments, t.head? ≠ some '{' := by
  decide +kernel

/-- Whatever the parameters are, the request has a rule: the documented one, or a deeper one. -/
theorem matchRule_of_fills {template path : String} {rule : Rule}
    (h : matchRule template = some rule) (hf : Fills template path) :
    ∃ r, matchRule path = some r ∧ (r = rule ∨ rule.Deeper r) := by
  have hrule := mem_of_matchRule h
  have hpre : rule.segments <+: segments path := by
    have htemplate := ((matchRule_eq_some_iff hrule).mp h).1
    have hlit := rules_literal rule hrule
    unfold Fills at hf
    revert htemplate hlit hf
    generalize rule.segments = l
    generalize segments template = t
    generalize segments path = p
    intro hf hsub hlit
    induction hf generalizing l with
    | nil => exact hsub
    | cons hhead _ ih =>
      rcases l with _ | ⟨x, l⟩
      · exact List.nil_prefix
      · obtain ⟨rfl, htail⟩ := List.cons_prefix_cons.mp hsub
        have hx := hhead.resolve_right (hlit _ List.mem_cons_self)
        exact List.cons_prefix_cons.mpr ⟨hx, ih l htail fun t ht =>
          hlit t (List.mem_cons_of_mem _ ht)⟩
  have hbest := best_matchRule path
  cases hm : matchRule path with
  | none =>
    rw [hm] at hbest
    exact absurd (admits_iff.mpr hpre) (hbest rule hrule)
  | some r =>
    rw [hm] at hbest
    obtain ⟨hr, hadmits, hmax⟩ := hbest
    refine ⟨r, rfl, ?_⟩
    by_cases he : r = rule
    · exact .inl he
    · rcases List.prefix_or_prefix_of_prefix hpre (admits_iff.mp hadmits) with hsub | hsub
      · exact .inr ⟨hsub, he⟩
      · have hlt := length_of_deeper r hr rule hrule ⟨hsub, Ne.symm he⟩
        have hle := hmax rule hrule (admits_iff.mpr hpre)
        omega

/-! ### The whole document -/

/-- `sorted(specs)`. -/
def inOrder (specs : Dict Upstream (Spec J)) : List (Service J) :=
  specs.entries.insertionSort fun a b => rank a.1 ≤ rank b.1

structure Merged [DecidableEq J] (values : Values J) (specs : Dict Upstream (Spec J)) : Prop where
  /-- The schemas of every service are right after every step exactly if every step keeps what is
  shared. -/
  schemas : (∀ done, done <+: inOrder specs → Faithful values (mergeAll values done) done) ↔
    ∀ done s, done ++ [s] <+: inOrder specs → Keeps values (mergeAll values done) s
  /-- So they are where no name is taken. -/
  clean : (∀ done s, done ++ [s] <+: inOrder specs → collisions (mergeAll values done) s.2 = []) →
    Faithful values (mergeSpecs values specs) (inOrder specs)
  /-- The references of a service follow its names. -/
  references : ∀ s ∈ specs.entries, ∀ name,
    rewrite s.1 ((mergeSpecs values specs).renamed s.1) (refOf name) =
      refOf (newName s.1 ((mergeSpecs values specs).renamed s.1) name)
  /-- An operation is listed exactly if some service has it and the route table has its path. -/
  lists : ∀ path method, (lookup (mergeSpecs values specs).paths path method).isSome ↔
    (matchRule path).isSome ∧ method ∈ httpMethods ∧
      ∃ s ∈ specs.entries, (lookup s.2.paths path method).isSome
  /-- It is the service's, with its references rewritten, and asks for a token if the rule does. -/
  asks : ∀ path method op, lookup (mergeSpecs values specs).paths path method = some op →
    ∃ s ∈ specs.entries, ∃ rule operation, matchRule path = some rule ∧
      lookup s.2.paths path method = some operation ∧ op = published values rule method
        (values.rewritten (rewrite s.1 ((mergeSpecs values specs).renamed s.1)) operation)
  /-- It can be called, whatever stands for its parameters. -/
  callable : ∀ path method op, lookup (mergeSpecs values specs).paths path method = some op →
    ∀ request, Fills path request → (matchRule request).isSome

theorem merged_of_fresh [DecidableEq J] {values : Values J} {specs : Dict Upstream (Spec J)}
    (hfresh : ∀ s ∈ specs.entries, Fresh s) : Merged values specs := by
  have hperm : (inOrder specs).Perm specs.entries := List.perm_insertionSort _ _
  have hmem : ∀ s, s ∈ inOrder specs ↔ s ∈ specs.entries := fun s => hperm.mem_iff
  have hapart : Apart (inOrder specs) :=
    ⟨(hperm.map Prod.fst).nodup_iff.mpr specs.distinct, fun s hs => hfresh s ((hmem s).mp hs)⟩
  have hasks : ∀ path method op, lookup (mergeSpecs values specs).paths path method = some op →
      ∃ s ∈ specs.entries, ∃ rule operation, matchRule path = some rule ∧ method ∈ httpMethods ∧
        lookup s.2.paths path method = some operation ∧ op = published values rule method
          (values.rewritten (rewrite s.1 ((mergeSpecs values specs).renamed s.1)) operation) := by
    intro path method op h
    obtain ⟨s, hs, hop⟩ := (lookup_mergeAll hapart).1 op h
    obtain ⟨rule, ops, operation, hrule, hpath, hhttp, hmethod, rfl⟩ := mem_listed.mp hop
    refine ⟨s, (hmem s).mp hs, rule, operation, hrule, hhttp, ?_, rfl⟩
    unfold lookup
    rw [hpath]
    exact hmethod
  refine ⟨faithful_iff hapart, fun hclean => ?_, fun s hs name => ?_,
    fun path method => ⟨fun h => ?_, ?_⟩, fun path method op h => ?_,
    fun path method op h request hf => ?_⟩
  · exact (faithful_iff hapart).mpr (fun done s hp => keeps_of_collisions (hclean done s hp)) _
      (List.prefix_refl _)
  · exact rewrite_refOf fun m hm n => (inv_mergeAll hapart).fresh s.1 m hm s.1 n
  · obtain ⟨op, hop⟩ := Option.isSome_iff_exists.mp h
    obtain ⟨s, hs, rule, operation, hrule, hhttp, hlook, -⟩ := hasks path method op hop
    exact ⟨Option.isSome_iff_exists.mpr ⟨rule, hrule⟩, hhttp, s, hs,
      Option.isSome_iff_exists.mpr ⟨operation, hlook⟩⟩
  · rintro ⟨hrule, hhttp, s, hs, hlook⟩
    obtain ⟨rule, hrule⟩ := Option.isSome_iff_exists.mp hrule
    obtain ⟨operation, hlook⟩ := Option.isSome_iff_exists.mp hlook
    obtain ⟨ops, hpath, hmethod⟩ := Option.bind_eq_some_iff.mp hlook
    exact (lookup_mergeAll hapart).2 s ((hmem s).mpr hs) _
      (mem_listed.mpr ⟨rule, ops, operation, hrule, hpath, hhttp, hmethod, rfl⟩)
  · obtain ⟨s, hs, rule, operation, hrule, -, hlook, heq⟩ := hasks path method op h
    exact ⟨s, hs, rule, operation, hrule, hlook, heq⟩
  · obtain ⟨s, -, rule, operation, hrule, -⟩ := hasks path method op h
    obtain ⟨r, hr, -⟩ := matchRule_of_fills hrule hf
    exact Option.isSome_iff_exists.mpr ⟨r, hr⟩

/-! ### A page of items -/

/-- Values of which only the strings matter. -/
def strings : Values (List String) where
  rewritten g l := l.map g
  rewritten_id l := List.map_id' l
  secured l := "bearerAuth" :: l

/-- Both services have a page of items, but of different ones. -/
def itemsOf (path item : String) : Spec (List String) where
  schemas := ⟨[("Item", [item]), ("Page", [refOf "Item"])], by simp⟩
  paths := ⟨[(path, ⟨[("get", [refOf "Page"])], by simp⟩)], by simp⟩

def twoPages : Dict Upstream (Spec (List String)) :=
  ⟨[(.catalog, itemsOf "/v1/menus/{id}" "dish"), (.order, itemsOf "/v1/orders" "line")], by decide⟩

theorem fresh_itemsOf {u : Upstream} {path item : String} : Fresh (u, itemsOf path item) := by
  intro name schema h v n he
  have hname : name = "Item" ∨ name = "Page" := by
    have hmem := List.mem_map_of_mem (f := Prod.fst) (Dict.mem_entries.mpr h)
    simpa [itemsOf] using hmem
  have hunder : '_' ∈ name.toList := by
    rw [he, prefixed, String.toList_append, String.toList_append]
    simp
  rcases hname with rfl | rfl
  · exact absurd hunder (by decide)
  · exact absurd hunder (by decide)

theorem merged_of_fresh_twoPages : Merged strings twoPages :=
  merged_of_fresh fun s hs => by
    simp only [twoPages, List.mem_cons, List.not_mem_nil, or_false] at hs
    rcases hs with rfl | rfl
    · exact fresh_itemsOf
    · exact fresh_itemsOf

/-- The page that both services have is overwritten: the first one's has the items of the other. -/
example : (mergeSpecs strings twoPages).schemas.get "Page" = some [refOf "Order_Item"] := by
  decide +kernel

end Edge.OpenApi
