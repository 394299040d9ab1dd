/-
The path that is forwarded, and the path that its upstream receives.

The proxy matches the decoded path, and hands `base_url + "/" + path` to httpx, which parses
it again: the path ends at the first '?' or '#', and dot segments are removed.  The upstream
decodes the escapes that are left.  (httpx quotes what is not an escape yet, and the upstream
undoes that.  An escape stands for one character here, which is all that the rules, the
separators and the dots need: they are ASCII.  What httpx refuses to parse, such as a control
character, never arrives.)

* `cut`, `removeDotSegments`, `unquote`, `received` — the path of the upstream, character by
  character;
* `walk`, `arriving` — the same, segment by segment; `segments_received` connects them;
* `Keeps` — the segments that arrive are those of the rule, and of no deeper one;
* `same_rule_iff` — exactly then the upstream receives a path of the rule that was matched.
-/
import SmartFoodOps.Edge.Proxy

open Auth Separated

namespace Edge

/-! ### The path of the upstream -/

/-- The path of a URL. -/
def cut (s : List Char) : List Char := s.takeWhile fun c => decide (c ≠ '?') && decide (c ≠ '#')

/-- A complete dot segment at the end leaves its slash. -/
def orSlash : List Char → List Char
  | [] => ['/']
  | input => input

/-- The output, which is kept reversed, without its last segment. -/
def dropSegment (output : List Char) : List Char :=
  (output.dropWhile fun c => decide (c ≠ '/')).drop 1

/-- The loop of RFC 3986, 5.2.4, for an input that begins with a slash. -/
def removeDotSegments : ℕ → List Char → List Char → List Char
  | 0, _, output | _ + 1, [], output => output.reverse
  | fuel + 1, _ :: rest, output =>
    let segment := rest.takeWhile fun c => decide (c ≠ '/')
    let input := rest.dropWhile fun c => decide (c ≠ '/')
    if segment = ['.'] then removeDotSegments fuel (orSlash input) output
    else if segment = ['.', '.'] then removeDotSegments fuel (orSlash input) (dropSegment output)
    else removeDotSegments fuel input (segment.reverse ++ '/' :: output)

def hexValue (c : Char) : Option ℕ :=
  if '0' ≤ c ∧ c ≤ '9' then some (c.toNat - '0'.toNat)
  else if 'a' ≤ c ∧ c ≤ 'f' then some (c.toNat - 'a'.toNat + 10)
  else if 'A' ≤ c ∧ c ≤ 'F' then some (c.toNat - 'A'.toNat + 10)
  else none

/-- What an escape that goes on with these characters stands for. -/
def escaped : List Char → Option Char
  | a :: b :: _ =>
    match hexValue a, hexValue b with
    | some x, some y => some (Char.ofNat (16 * x + y))
    | _, _ => none
  | _ => none

/-- Decode; the first number counts the characters of an escape that are still to be skipped. -/
def unquoteFrom : ℕ → List Char → List Char
  | _, [] => []
  | k + 1, _ :: rest => unquoteFrom k rest
  | 0, c :: rest =>
    if c = '%' then
      match escaped rest with
      | some d => d :: unquoteFrom 2 rest
      | none => c :: unquoteFrom 0 rest
    else c :: unquoteFrom 0 rest

def unquote (s : List Char) : List Char := unquoteFrom 0 s

/-- The path that the upstream receives.  Where the last segment is a dot segment, httpx also drops
the slash before it: the trailing slash that is left here changes no match of a rule. -/
def received (path : String) : String :=
  let url := cut ('/' :: path.toList)
  String.ofList (unquote (removeDotSegments (url.length + 1) url []))

/-! ### Segment by segment -/

/-- Keep the segments, but for the dot segments; the last one of these leaves an empty one. -/
def walk : List Segment → List Segment → List Segment
  | kept, [] => kept.reverse
  | kept, s :: rest =>
    if s = ['.'] then walk (if rest = [] then [] :: kept else kept) rest
    else if s = ['.', '.'] then walk (if rest = [] then [] :: kept.tail else kept.tail) rest
    else walk (s :: kept) rest

/-- The segments that arrive, up to the first '?' or '#', without dot segments, and decoded. -/
def arriving (path : String) : List Segment :=
  (walk [] ((cut path.toList).splitOn '/')).flatMap fun s => (unquote s).splitOn '/'

/-- Segments, each with its slash. -/
def rooted (l : List Segment) : List Char := l.flatMap fun s => '/' :: s

theorem rooted_cons (s : Segment) (l : List Segment) : rooted (s :: l) = '/' :: (s ++ rooted l) := rfl

theorem rooted_eq {s : Segment} {l : List Segment} :
    rooted (s :: l) = '/' :: ['/'].intercalate (s :: l) := by
  induction l generalizing s with
  | nil => simp [rooted]
  | cons t l ih => rw [rooted_cons, ih, List.intercalate_cons_cons, List.append_assoc]; rfl

theorem dropSegment_rooted {s : Segment} {l : List Segment} (hs : '/' ∉ s) :
    dropSegment (rooted (l ++ [s])).reverse = (rooted l).reverse := by
  have hpos : ∀ c ∈ s.reverse, decide (c ≠ '/') = true := by
    intro c hc
    refine decide_eq_true ?_
    rintro rfl
    exact hs (List.mem_reverse.mp hc)
  have hsplit : (rooted (l ++ [s])).reverse = s.reverse ++ '/' :: (rooted l).reverse := by
    simp [rooted]
  rw [dropSegment, hsplit, List.dropWhile_append_of_pos hpos]
  simp

/-- The loop walks through the segments. -/
theorem removeDotSegments_eq {fuel : ℕ} {kept rest : List Segment} (hkept : ∀ s ∈ kept, '/' ∉ s)
    (hrest : ∀ s ∈ rest, '/' ∉ s) (hfuel : (rooted rest).length < fuel) :
    removeDotSegments fuel (rooted rest) (rooted kept.reverse).reverse =
      rooted (walk kept rest) := by
  induction fuel generalizing kept rest with
  | zero => exact absurd hfuel (Nat.not_lt_zero _)
  | succ fuel ih =>
    cases rest with
    | nil => exact List.reverse_reverse _
    | cons s rest =>
      obtain ⟨hs, hrest⟩ := List.forall_mem_cons.mp hrest
      have hinput : (if rest = [] then [] else '/' :: ['/'].intercalate rest) = rooted rest := by
        cases rest with
        | nil => rfl
        | cons t rest => rw [if_neg (List.cons_ne_nil t rest), rooted_eq]
      have hnil : ∀ s' ∈ ([[]] : List Segment), '/' ∉ s' := by simp
      rw [rooted_cons, List.length_cons, List.length_append] at hfuel
      rw [rooted_eq, removeDotSegments, takeWhile_intercalate hs, dropWhile_intercalate hs, hinput]
      -- what a dot segment leaves of the input
      have hdots : ∀ kept' : List Segment, (∀ s ∈ kept', '/' ∉ s) → s.length ≠ 0 →
          removeDotSegments fuel (orSlash (rooted rest)) (rooted kept'.reverse).reverse =
            rooted (walk (if rest = [] then [] :: kept' else kept') rest) := by
        intro kept' hkept' hlength
        cases rest with
        | nil =>
          have hempty := ih hkept' hnil (by simp [rooted]; omega)
          simpa [orSlash, rooted, walk] using hempty
        | cons t rest =>
          rw [if_neg (List.cons_ne_nil t rest)]
          exact ih hkept' hrest (by omega)
      by_cases hone : s = ['.']
      · simp only [walk, hone, if_true]
        exact hdots kept hkept (by simp [hone])
      by_cases htwo : s = ['.', '.']
      · have hdrop : dropSegment (rooted kept.reverse).reverse = (rooted kept.tail.reverse).reverse := by
          cases kept with
          | nil => rfl
          | cons k kept =>
            rw [List.reverse_cons, List.tail_cons]
            exact dropSegment_rooted (hkept k List.mem_cons_self)
        simp only [walk, htwo, if_true, hdrop]
        rw [if_neg (by decide), if_neg (by decide)]
        exact hdots kept.tail (fun x hx => hkept x (List.mem_of_mem_tail hx)) (by simp [htwo])
      · simp only [walk, hone, htwo, if_false]
        have hnext := @ih (s :: kept) rest (List.forall_mem_cons.mpr ⟨hs, hkept⟩) hrest (by omega)
        rw [← hnext]
        congr 1
        simp [rooted]

theorem hexValue_slash : hexValue '/' = none := by decide

theorem escaped_append_slash (l r : List Char) : escaped (l ++ '/' :: r) = escaped l := by
  match l with
  | [] => cases r <;> simp [escaped, hexValue_slash]
  | [a] => simp [escaped, hexValue_slash]
  | _ :: _ :: _ => rfl

theorem length_of_escaped {l : List Char} {d : Char} (h : escaped l = some d) : 2 ≤ l.length := by
  match l with
  | [] | [_] => cases h
  | _ :: _ :: l => simp

/-- No escape reaches over a slash. -/
theorem unquoteFrom_append_slash {k : ℕ} {l r : List Char} (hk : k ≤ l.length) :
    unquoteFrom k (l ++ '/' :: r) = unquoteFrom k l ++ '/' :: unquote r := by
  induction l generalizing k with
  | nil =>
    obtain rfl := Nat.le_zero.mp hk
    rfl
  | cons c l ih =>
    cases k with
    | succ k => exact ih (Nat.le_of_succ_le_succ hk)
    | zero =>
      rw [List.cons_append, unquoteFrom, unquoteFrom, escaped_append_slash]
      split
      · split
        · next d hd => rw [ih (length_of_escaped hd), List.cons_append]
        · rw [ih (Nat.zero_le _), List.cons_append]
      · rw [ih (Nat.zero_le _), List.cons_append]

theorem unquote_intercalate {s : Segment} {l : List Segment} :
    unquote (['/'].intercalate (s :: l)) = ['/'].intercalate ((s :: l).map unquote) := by
  induction l generalizing s with
  | nil => simp
  | cons t l ih =>
    have hsplit : unquote (s ++ '/' :: ['/'].intercalate (t :: l)) =
        unquote s ++ '/' :: unquote (['/'].intercalate (t :: l)) :=
      unquoteFrom_append_slash (Nat.zero_le _)
    rw [List.intercalate_cons_cons, List.append_assoc, List.singleton_append, hsplit, ih]
    simp

/-- The last segment of a path stays, or leaves an empty one. -/
theorem walk_ne_nil {kept : List Segment} {s : Segment} {rest : List Segment} :
    walk kept (s :: rest) ≠ [] := by
  induction rest generalizing kept s with
  | nil =>
    simp only [walk, if_true]
    split
    · simp
    · split <;> simp
  | cons t rest ih =>
    rw [walk]
    split
    · exact ih
    · split <;> exact ih

/-- **What the upstream receives, segment by segment.** -/
theorem segments_received (path : String) : segments (received path) = [] :: arriving path := by
  obtain ⟨s, rest, hsegments⟩ :=
    List.exists_cons_of_ne_nil (List.splitOn_ne_nil '/' (cut path.toList))
  have hpath : ['/'].intercalate (s :: rest) = cut path.toList := by
    rw [← hsegments, List.intercalate_splitOn]
  have hurl : cut ('/' :: path.toList) = rooted (s :: rest) := by
    rw [rooted_eq, hpath]
    rfl
  have hslash : ∀ x ∈ s :: rest, '/' ∉ x := fun x hx =>
    not_mem_of_mem_splitOn (hsegments ▸ hx)
  have hloop : removeDotSegments ((rooted (s :: rest)).length + 1) (rooted (s :: rest)) [] =
      rooted (walk [] (s :: rest)) :=
    removeDotSegments_eq (List.forall_mem_nil _) hslash (Nat.lt_succ_self _)
  obtain ⟨t, l, hwalk⟩ := List.exists_cons_of_ne_nil (@walk_ne_nil [] s rest)
  have hdecoded : unquote (rooted (t :: l)) = '/' :: ['/'].intercalate ((t :: l).map unquote) := by
    rw [rooted_eq, ← unquote_intercalate]
    rfl
  rw [segments, received, hurl, hloop, hwalk, hdecoded, String.toList_ofList, arriving, hsegments,
    hwalk]
  have hsplit : ('/' :: ['/'].intercalate ((t :: l).map unquote)).splitOn '/' =
      [] :: (['/'].intercalate ((t :: l).map unquote)).splitOn '/' :=
    List.splitOn_append_cons_self [] _
  rw [hsplit, splitOn_intercalate_flatMap (by simp), List.flatMap_map]

/-! ### The rule of the upstream's path -/

/-- The segments that arrive begin with those of the rule, and with those of no deeper one. -/
def Keeps (rule : Rule) (path : String) : Prop :=
  rule.segments <+: [] :: arriving path ∧
    ∀ r ∈ rules, rule.Deeper r → ¬ r.segments <+: [] :: arriving path

instance (rule : Rule) (path : String) : Decidable (Keeps rule path) :=
  inferInstanceAs (Decidable (_ ∧ ∀ r ∈ rules, _))

/-- **The upstream receives a path of the rule that was matched, exactly if the segments that
arrive keep to the rule.** -/
theorem same_rule_iff {settings : Settings} {verify : Verifier} {redis : Redis} {now : ℕ}
    {answers : Bool} {r : Request} {f : Forwarded}
    (h : (proxy settings verify redis now answers r).1 = .ok f) :
    ∃ rule, matchRule ("/" ++ r.path) = some rule ∧ f.upstream = rule.upstream ∧
      (matchRule (received f.path) = some rule ↔ Keeps rule r.path) := by
  obtain ⟨rule, stamped, scope, hrule, -, rfl⟩ := forwarded_of_proxy h
  refine ⟨rule, hrule, rfl, ?_⟩
  rw [matchRule_eq_some_iff (mem_of_matchRule hrule), segments_received]
  exact Iff.rfl

/-- A request from a browser, without a token. -/
def browse (method path : String) : Request where
  path := path
  method := method
  headers := []
  query := ""
  body := ""
  clientHost := some "10.0.0.9"
  requestId := none
  traceparent := none

def relay (method path : String) : Except Refusal Forwarded :=
  (proxy (.standard false) (fun _ => .error .invalid) (fun _ => none) 0 true (browse method path)).1

/-- What is handed on for it. -/
def relayed (upstream : Upstream) (method path : String) : Forwarded :=
  ⟨upstream, path, method, "", "", []⟩

theorem same_rule_of_menu : ∃ rule, matchRule "/v1/menus/rst_1/../rst_2" = some rule ∧
    (relayed .catalog "GET" "v1/menus/rst_1/../rst_2").upstream = rule.upstream ∧
      (matchRule (received (relayed .catalog "GET" "v1/menus/rst_1/../rst_2").path) = some rule ↔
        Keeps rule "v1/menus/rst_1/../rst_2") := by
  have hrelay : relay "GET" "v1/menus/rst_1/../rst_2" =
      .ok (relayed .catalog "GET" "v1/menus/rst_1/../rst_2") := by
    decide +kernel
  exact same_rule_iff hrelay

/-- The login route is open, and the path climbs out of it. -/
def climbing : String := "v1/auth/login/../../internal/grants"

/-- **An internal route is reached without a token.** -/
theorem internal_reached :
    relay "POST" climbing = .ok (relayed .identity "POST" climbing) ∧
      received (relayed .identity "POST" climbing).path = "/v1/internal/grants" ∧
        matchRule (received (relayed .identity "POST" climbing).path) = none := by
  decide +kernel

end Edge
