/-
The route table of edge-bff: which path goes to which service, and who may call it.

* `rules`, `matchRule` — the table, and its longest match;
* `needsAuth`, `limitClassFor` — what the proxy asks a rule;
* `segments`, `admits_iff` — a rule admits the paths that begin with its segments;
* `matchRule_eq_some` — of the rules that admit a path, the match is the longest.
-/
import SmartFoodOps.Auth.Context
import SmartFoodOps.Lib.Separated

open Separated

namespace Edge

/-! ### The table -/

inductive Upstream
  | identity
  | catalog
  | inventory
  | order
  | notification
  | dispatch
  | assistant
  | analytics
  deriving DecidableEq

inductive RouteMode
  /-- No token ever. -/
  | open
  /-- GET and HEAD are anonymous, writes need a token. -/
  | publicRead
  | auth
  deriving DecidableEq

inductive RouteClass
  | auth
  | read
  | write
  deriving DecidableEq

structure Rule where
  pathPrefix : String
  upstream : Upstream
  mode : RouteMode
  limit : Option RouteClass := none
  deriving DecidableEq

def rules : List Rule :=
  [⟨"/v1/auth/register", .identity, .open, some .auth⟩,
    ⟨"/v1/auth/login", .identity, .open, some .auth⟩,
    ⟨"/v1/auth/refresh", .identity, .open, some .auth⟩,
    { pathPrefix := "/v1/auth", upstream := .identity, mode := .auth },
    { pathPrefix := "/v1/me", upstream := .identity, mode := .auth },
    { pathPrefix := "/v1/restaurants", upstream := .catalog, mode := .publicRead },
    { pathPrefix := "/v1/menus", upstream := .catalog, mode := .publicRead },
    { pathPrefix := "/v1/search", upstream := .catalog, mode := .publicRead },
    { pathPrefix := "/v1/inventory", upstream := .inventory, mode := .auth },
    { pathPrefix := "/v1/orders", upstream := .order, mode := .auth },
    { pathPrefix := "/v1/quote", upstream := .order, mode := .auth },
    { pathPrefix := "/v1/restaurant", upstream := .order, mode := .auth },
    { pathPrefix := "/v1/notifications", upstream := .notification, mode := .auth },
    { pathPrefix := "/v1/rider", upstream := .dispatch, mode := .auth },
    { pathPrefix := "/v1/deliveries", upstream := .dispatch, mode := .auth },
    { pathPrefix := "/v1/track", upstream := .order, mode := .auth },
    { pathPrefix := "/v1/assistant", upstream := .assistant, mode := .auth },
    { pathPrefix := "/v1/restaurant/analytics", upstream := .analytics, mode := .auth }]

/-- `path == rule.prefix or path.startswith(rule.prefix + "/")`. -/
def Rule.Admits (rule : Rule) (path : String) : Prop :=
  path = rule.pathPrefix ∨ rule.pathPrefix.toList ++ ['/'] <+: path.toList

instance (rule : Rule) (path : String) : Decidable (rule.Admits path) :=
  inferInstanceAs (Decidable (_ ∨ _))

/-- The better of the best rule so far and one more. -/
def better (path : String) (best : Option Rule) (rule : Rule) : Option Rule :=
  if rule.Admits path then
    match best with
    | none => some rule
    | some b => if b.pathPrefix.length < rule.pathPrefix.length then some rule else some b
  else best

/-- `match`: the longest prefix wins. -/
def matchRule (path : String) : Option Rule := rules.foldl (better path) none

def readMethod (method : String) : Bool := method.toUpper = "GET" || method.toUpper = "HEAD"

def needsAuth (rule : Rule) (method : String) : Bool :=
  match rule.mode with
  | .open => false
  | .publicRead => !readMethod method
  | .auth => true

def limitClassFor (rule : Rule) (method : String) : RouteClass :=
  match rule.limit with
  | some c => c
  | none => if readMethod method then .read else .write

/-! ### Segments -/

abbrev Segment := List Char

/-- What stands between the slashes. -/
def segments (path : String) : List Segment := path.toList.splitOn '/'

def Rule.segments (rule : Rule) : List Segment := Edge.segments rule.pathPrefix

/-- A rule admits the paths that begin with its segments. -/
theorem admits_iff {rule : Rule} {path : String} :
    rule.Admits path ↔ rule.segments <+: segments path := by
  unfold Rule.segments segments Rule.Admits
  rw [splitOn_isPrefix_iff, String.toList_inj]

/-! ### The longest match -/

/-- What the rules so far have come to. -/
def Best (path : String) (seen : List Rule) : Option Rule → Prop
  | none => ∀ r ∈ seen, ¬ r.Admits path
  | some b => b ∈ seen ∧ b.Admits path ∧
      ∀ r ∈ seen, r.Admits path → r.pathPrefix.length ≤ b.pathPrefix.length

theorem Best.better {path : String} {seen : List Rule} {best : Option Rule} {rule : Rule}
    (h : Best path seen best) : Best path (seen ++ [rule]) (better path best rule) := by
  unfold Edge.better
  split
  · next hadmits =>
    cases best with
    | none =>
      refine ⟨by simp, hadmits, fun r hr hr' => ?_⟩
      rcases List.mem_append.mp hr with hr | hr
      · exact absurd hr' (h r hr)
      · rw [List.mem_singleton.mp hr]
    | some b =>
      obtain ⟨hb, hb', hmax⟩ := h
      simp only
      split
      · next hlt =>
        refine ⟨by simp, hadmits, fun r hr hr' => ?_⟩
        rcases List.mem_append.mp hr with hr | hr
        · exact (hmax r hr hr').trans hlt.le
        · rw [List.mem_singleton.mp hr]
      · next hle =>
        refine ⟨List.mem_append_left _ hb, hb', fun r hr hr' => ?_⟩
        rcases List.mem_append.mp hr with hr | hr
        · exact hmax r hr hr'
        · rw [List.mem_singleton.mp hr]
          exact Nat.le_of_not_lt hle
  · next hadmits =>
    cases best with
    | none =>
      intro r hr
      rcases List.mem_append.mp hr with hr | hr
      · exact h r hr
      · rw [List.mem_singleton.mp hr]
        exact hadmits
    | some b =>
      obtain ⟨hb, hb', hmax⟩ := h
      refine ⟨List.mem_append_left _ hb, hb', fun r hr hr' => ?_⟩
      rcases List.mem_append.mp hr with hr | hr
      · exact hmax r hr hr'
      · rw [List.mem_singleton.mp hr] at hr'
        exact absurd hr' hadmits

theorem best_foldl {path : String} {seen rest : List Rule} {best : Option Rule}
    (h : Best path seen best) : Best path (seen ++ rest) (rest.foldl (better path) best) := by
  induction rest generalizing seen best with
  | nil =>
    rw [List.append_nil]
    exact h
  | cons rule rest ih =>
    rw [List.append_cons]
    exact ih h.better

theorem best_matchRule (path : String) : Best path rules (matchRule path) :=
  @best_foldl path [] rules none (List.forall_mem_nil _)

/-- The prefix of `r` goes on after that of `rule`. -/
def Rule.Deeper (rule r : Rule) : Prop := rule.segments <+: r.segments ∧ r ≠ rule

instance (rule r : Rule) : Decidable (rule.Deeper r) := inferInstanceAs (Decidable (_ ∧ _))

theorem length_of_deeper : ∀ rule ∈ rules, ∀ r ∈ rules, rule.Deeper r →
    rule.pathPrefix.length < r.pathPrefix.length := by
  decide +kernel

/-- **The match is the rule whose segments the path begins with, and that of no deeper one.** -/
theorem matchRule_eq_some_iff {rule : Rule} {path : String} (hrule : rule ∈ rules) :
    matchRule path = some rule ↔ rule.segments <+: segments path ∧
      ∀ r ∈ rules, rule.Deeper r → ¬ r.segments <+: segments path := by
  have hbest := best_matchRule path
  constructor
  · intro h
    rw [h] at hbest
    obtain ⟨-, hadmits, hmax⟩ := hbest
    refine ⟨admits_iff.mp hadmits, fun r hr hdeeper hpath => ?_⟩
    have hle := hmax r hr (admits_iff.mpr hpath)
    have hlt := length_of_deeper rule hrule r hr hdeeper
    omega
  · rintro ⟨hpath, hdeeper⟩
    cases hm : matchRule path with
    | none =>
      rw [hm] at hbest
      exact absurd (admits_iff.mpr hpath) (hbest rule hrule)
    | some b =>
      rw [hm] at hbest
      obtain ⟨hb, hadmits, hmax⟩ := hbest
      have hle := hmax rule hrule (admits_iff.mpr hpath)
      by_contra hne
      have hne : b ≠ rule := fun he => hne (congrArg some he)
      rcases List.prefix_or_prefix_of_prefix hpath (admits_iff.mp hadmits) with hsub | hsub
      · exact hdeeper b hb ⟨hsub, hne⟩ (admits_iff.mp hadmits)
      · have hlt := length_of_deeper b hb rule hrule ⟨hsub, hne.symm⟩
        omega

theorem mem_of_matchRule {rule : Rule} {path : String} (h : matchRule path = some rule) :
    rule ∈ rules := by
  have hbest := best_matchRule path
  rw [h] at hbest
  exact hbest.1

end Edge
