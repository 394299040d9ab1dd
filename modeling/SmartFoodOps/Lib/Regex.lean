/-
Regular expressions as a backtracking matcher reads them.

* `Cursor` — what has been read of a text, and what is left of it;
* `Regex`, `Regex.run` — every way to match from a cursor, in the order in which a backtracking
  matcher tries them: alternatives from the left, repetitions as often as possible;
* `search`, `occurs` — the first match, leftmost first;
* `replaceAll` — every match, from the left, in place of which something else stands;
* `findAll`, `splitAll` — every match, from the left, and what stands between them;
* `Reads` — a match that only depends on what stands after the cursor, with the equations of
  `replaceAll` for it (`replaceAll_of_reads`), and `occurs_iff`;
* `Begins`, `search_some`, `search_none` — where there is a match, and the leftmost of them;
* `run_seq_str`, `run_seq_star`, `run_seq_char`, `reads_star` — the matches of literals, and of
  repetitions that stop where the next character is expected, or at the end.

Assertions look at the cursor and match nothing.  A repetition goes on only as long as it reads
something, and an empty match is not replaced.
-/
import Mathlib.Data.List.Basic

/-- A place in a text: what stands before it, the nearest first, and what stands after it. -/
structure Cursor where
  before : List Char
  after : List Char
  deriving DecidableEq

inductive Regex
  | empty
  | char (p : Char → Bool)
  | look (p : Cursor → Bool)
  | seq (r s : Regex)
  | alt (r s : Regex)
  | star (r : Regex)

namespace Regex

/-- As often as possible; `n` bounds how often. -/
def iterate (f : Cursor → List Cursor) : ℕ → Cursor → List Cursor
  | 0, c => [c]
  | n + 1, c =>
    ((f c).flatMap fun c' => if c'.after.length < c.after.length then iterate f n c' else []) ++ [c]

/-- The places at which a match can end, the preferred first. -/
def run : Regex → Cursor → List Cursor
  | empty, c => [c]
  | char p, ⟨before, after⟩ =>
    match after with
    | [] => []
    | x :: rest => if p x then [⟨x :: before, rest⟩] else []
  | look p, c => if p c then [c] else []
  | seq r s, c => (run r c).flatMap (run s)
  | alt r s, c => run r c ++ run s c
  | star r, c => iterate (run r) c.after.length c

/-! ### Derived forms -/

def lit (x : Char) : Regex := char fun y => y = x

/-- The characters of `s`, each compared by `eq`. -/
def word (eq : Char → Char → Bool) (s : String) : Regex :=
  s.toList.foldr (fun x r => seq (char (eq x)) r) empty

def str (s : String) : Regex := word (fun x y => x = y) s

def plus (r : Regex) : Regex := seq r (star r)

def opt (r : Regex) : Regex := alt r empty

/-- One of them, the first by preference. -/
def oneOf : List Regex → Regex
  | [] => look fun _ => false
  | [r] => r
  | r :: rs => alt r (oneOf rs)

def seqs (rs : List Regex) : Regex := rs.foldr seq empty

/-- `{0,n}`. -/
def upTo (r : Regex) : ℕ → Regex
  | 0 => empty
  | n + 1 => opt (seq r (upTo r n))

/-- `{n}`. -/
def times (r : Regex) : ℕ → Regex
  | 0 => empty
  | n + 1 => seq r (times r n)

/-- `{m,n}`. -/
def between (r : Regex) (m n : ℕ) : Regex := seq (times r m) (upTo r (n - m))

/-- `{n,}`. -/
def atLeast (r : Regex) (n : ℕ) : Regex := seq (times r n) (star r)

/-- `\b`, for a class of word characters. -/
def boundary (isWord : Char → Bool) : Regex :=
  look fun c => c.before.head?.any isWord != c.after.head?.any isWord

/-- `$`: at the end, or before a line feed at the end. -/
def ending : Regex := look fun c => c.after = [] || c.after = ['\n']

/-! ### Searching -/

/-- The leftmost match, as the places where it begins and ends. -/
def searchFrom (r : Regex) (before : List Char) : List Char → Option (Cursor × Cursor)
  | [] => (run r ⟨before, []⟩).head?.map fun e => (⟨before, []⟩, e)
  | x :: rest =>
    match (run r ⟨before, x :: rest⟩).head? with
    | some e => some (⟨before, x :: rest⟩, e)
    | none => searchFrom r (x :: before) rest

def search (r : Regex) (s : List Char) : Option (Cursor × Cursor) := searchFrom r [] s

def occurs (r : Regex) (s : List Char) : Bool := (search r s).isSome

/-- `f` stands for every match; `n` bounds the number of steps. -/
def replaceFrom (r : Regex) (f : List Char → List Char) : ℕ → Cursor → List Char
  | 0, c => c.after
  | _ + 1, ⟨_, []⟩ => []
  | n + 1, ⟨before, x :: rest⟩ =>
    match (run r ⟨before, x :: rest⟩).head? with
    | some e =>
      if e.after.length ≤ rest.length then
        f ((x :: rest).take (rest.length + 1 - e.after.length)) ++ replaceFrom r f n e
      else x :: replaceFrom r f n ⟨x :: before, rest⟩
    | none => x :: replaceFrom r f n ⟨x :: before, rest⟩

def replaceAll (r : Regex) (f : List Char → List Char) (s : List Char) : List Char :=
  replaceFrom r f s.length ⟨[], s⟩

/-- The matches that are not empty; `n` bounds the number of steps. -/
def findFrom (r : Regex) : ℕ → Cursor → List (List Char)
  | 0, _ => []
  | _ + 1, ⟨_, []⟩ => []
  | n + 1, ⟨before, x :: rest⟩ =>
    match (run r ⟨before, x :: rest⟩).head? with
    | some e =>
      if e.after.length ≤ rest.length then
        (x :: rest).take (rest.length + 1 - e.after.length) :: findFrom r n e
      else findFrom r n ⟨x :: before, rest⟩
    | none => findFrom r n ⟨x :: before, rest⟩

def findAll (r : Regex) (s : List Char) : List (List Char) := findFrom r s.length ⟨[], s⟩

/-- The pieces between the matches that are not empty; `piece` is what has been read of one, the
last character first. -/
def splitFrom (r : Regex) : ℕ → List Char → Cursor → List (List Char)
  | 0, piece, c => [piece.reverse ++ c.after]
  | _ + 1, piece, ⟨_, []⟩ => [piece.reverse]
  | n + 1, piece, ⟨before, x :: rest⟩ =>
    match (run r ⟨before, x :: rest⟩).head? with
    | some e =>
      if e.after.length ≤ rest.length then piece.reverse :: splitFrom r n [] e
      else splitFrom r n (x :: piece) ⟨x :: before, rest⟩
    | none => splitFrom r n (x :: piece) ⟨x :: before, rest⟩

def splitAll (r : Regex) (s : List Char) : List (List Char) := splitFrom r s.length [] ⟨[], s⟩

section

variable {r : Regex} {n : ℕ} {before s : List Char} {x : Char}

theorem searchFrom_nil : searchFrom r before [] =
    (run r ⟨before, []⟩).head?.map fun e => (⟨before, []⟩, e) := rfl

theorem searchFrom_cons : searchFrom r before (x :: s) =
    match (run r ⟨before, x :: s⟩).head? with
    | some e => some (⟨before, x :: s⟩, e)
    | none => searchFrom r (x :: before) s := rfl

theorem replaceFrom_cons {f : List Char → List Char} :
    replaceFrom r f (n + 1) ⟨before, x :: s⟩ =
      match (run r ⟨before, x :: s⟩).head? with
      | some e =>
        if e.after.length ≤ s.length then
          f ((x :: s).take (s.length + 1 - e.after.length)) ++ replaceFrom r f n e
        else x :: replaceFrom r f n ⟨x :: before, s⟩
      | none => x :: replaceFrom r f n ⟨x :: before, s⟩ := rfl

theorem findFrom_cons : findFrom r (n + 1) ⟨before, x :: s⟩ =
    match (run r ⟨before, x :: s⟩).head? with
    | some e =>
      if e.after.length ≤ s.length then
        (x :: s).take (s.length + 1 - e.after.length) :: findFrom r n e
      else findFrom r n ⟨x :: before, s⟩
    | none => findFrom r n ⟨x :: before, s⟩ := rfl

theorem iterate_succ {g : Cursor → List Cursor} {c : Cursor} : iterate g (n + 1) c =
    ((g c).flatMap fun c' => if c'.after.length < c.after.length then iterate g n c' else []) ++
      [c] := rfl

end

/-! ### Matches that look ahead only -/

/-- The text after the first match at a place, told by what stands after the place. -/
def Reads (r : Regex) (rest : List Char → Option (List Char)) : Prop :=
  ∀ before s, ((run r ⟨before, s⟩).head?).map Cursor.after = rest s

section

variable {r k : Regex} {rest : List Char → Option (List Char)} {f : List Char → List Char}
  {before s u : List Char} {x : Char} {p q : Char → Bool}

theorem Reads.head (h : Reads r rest) (before : List Char) (hu : rest s = some u) :
    ∃ e, (run r ⟨before, s⟩).head? = some e ∧ e.after = u := by
  rw [← h before s] at hu
  exact Option.map_eq_some_iff.mp hu

theorem Reads.head_none (h : Reads r rest) (before : List Char) (hu : rest s = none) :
    (run r ⟨before, s⟩).head? = none := by
  rw [← h before s] at hu
  exact Option.map_eq_none_iff.mp hu

/-- What has been read and the steps to spare do not matter. -/
theorem replaceFrom_congr (h : Reads r rest) {n m : ℕ} {before' : List Char} (hn : s.length ≤ n)
    (hm : s.length ≤ m) : replaceFrom r f n ⟨before, s⟩ = replaceFrom r f m ⟨before', s⟩ := by
  induction n generalizing m s before before' with
  | zero =>
    obtain rfl := List.length_eq_zero_iff.mp (Nat.le_zero.mp hn)
    cases m <;> rfl
  | succ n ih =>
    rcases s with _ | ⟨x, s⟩
    · cases m <;> rfl
    obtain ⟨m, rfl⟩ : ∃ m', m = m' + 1 := Nat.exists_eq_succ_of_ne_zero (by
      rintro rfl
      exact absurd hm (Nat.not_succ_le_zero _))
    have hn : s.length ≤ n := Nat.le_of_succ_le_succ hn
    have hm : s.length ≤ m := Nat.le_of_succ_le_succ hm
    have htail : replaceFrom r f n ⟨x :: before, s⟩ = replaceFrom r f m ⟨x :: before', s⟩ := ih hn hm
    rw [replaceFrom_cons, replaceFrom_cons]
    rcases hu : rest (x :: s) with _ | u
    · rw [h.head_none before hu, h.head_none before' hu]
      exact congrArg (x :: ·) htail
    · obtain ⟨e, he, hafter⟩ := h.head before hu
      obtain ⟨e', he', hafter'⟩ := h.head before' hu
      rw [he, he']
      dsimp only
      rw [hafter, hafter']
      by_cases hle : u.length ≤ s.length
      · rw [if_pos hle, if_pos hle]
        obtain ⟨b, a⟩ := e
        obtain ⟨b', a'⟩ := e'
        dsimp only at hafter hafter'
        rw [hafter, hafter']
        exact congrArg _ (ih (Nat.le_trans hle hn) (Nat.le_trans hle hm))
      · rw [if_neg hle, if_neg hle]
        exact congrArg (x :: ·) htail

/-- **Replacing**, where there is a match. -/
theorem replaceAll_of_reads (h : Reads r rest) (hu : rest (x :: s) = some u)
    (hle : u.length ≤ s.length) : replaceAll r f (x :: s) =
      f ((x :: s).take (s.length + 1 - u.length)) ++ replaceAll r f u := by
  obtain ⟨⟨b, a⟩, he, rfl⟩ := h.head [] hu
  show replaceFrom r f (s.length + 1) ⟨[], x :: s⟩ = _
  simp only [replaceFrom_cons, he]
  rw [if_pos hle]
  exact congrArg _ (replaceFrom_congr h hle (Nat.le_refl _))

/-- And where there is none. -/
theorem replaceAll_of_not_reads (h : Reads r rest) (hu : rest (x :: s) = none) :
    replaceAll r f (x :: s) = x :: replaceAll r f s := by
  show replaceFrom r f (s.length + 1) ⟨[], x :: s⟩ = _
  simp only [replaceFrom_cons, h.head_none [] hu]
  exact congrArg (x :: ·) (replaceFrom_congr h (Nat.le_refl _) (Nat.le_refl _))

theorem searchFrom_isSome (h : Reads r rest) :
    (searchFrom r before s).isSome = true ↔ ∃ u, u <:+ s ∧ (rest u).isSome = true := by
  induction s generalizing before with
  | nil =>
    simp only [searchFrom_nil, Option.isSome_map, List.suffix_nil, exists_eq_left]
    rw [← h before [], Option.isSome_map]
  | cons x s ih =>
    rw [searchFrom_cons]
    rcases hu : rest (x :: s) with _ | u
    · rw [h.head_none before hu]
      dsimp only
      rw [ih]
      refine exists_congr fun u => ⟨fun ⟨hu', hr⟩ => ⟨hu'.trans (List.suffix_cons x s), hr⟩, ?_⟩
      rintro ⟨hu', hr⟩
      rcases List.suffix_cons_iff.mp hu' with rfl | hu'
      · rw [hu] at hr
        cases hr
      · exact ⟨hu', hr⟩
    · obtain ⟨e, he, -⟩ := h.head before hu
      rw [he]
      exact ⟨fun _ => ⟨x :: s, List.suffix_refl _, by rw [hu]; rfl⟩, fun _ => rfl⟩

/-- **Occurring.** -/
theorem occurs_iff (h : Reads r rest) : occurs r s = true ↔ ∃ u, u <:+ s ∧ (rest u).isSome = true :=
  searchFrom_isSome h

/-- There is a match exactly before the texts that satisfy `P`. -/
def Begins (r : Regex) (P : List Char → Prop) : Prop := ∀ before s, run r ⟨before, s⟩ ≠ [] ↔ P s

theorem searchFrom_none {P : List Char → Prop} (h : Begins r P)
    (hs : searchFrom r before s = none) (hu : u <:+ s) : ¬ P u := by
  induction s generalizing before with
  | nil =>
    simp only [searchFrom_nil, Option.map_eq_none_iff, List.head?_eq_none_iff] at hs
    rw [List.suffix_nil.mp hu, ← h before]
    exact not_not_intro hs
  | cons x s ih =>
    rw [searchFrom_cons] at hs
    rcases hrun : (run r ⟨before, x :: s⟩).head? with _ | e
    · rw [hrun] at hs
      rcases List.suffix_cons_iff.mp hu with rfl | hu
      · rw [← h before]
        exact not_not_intro (List.head?_eq_none_iff.mp hrun)
      · exact ih hs hu
    · rw [hrun] at hs
      cases hs

/-- **The leftmost match.** -/
theorem searchFrom_some {P : List Char → Prop} {c e : Cursor} (h : Begins r P)
    (hs : searchFrom r before s = some (c, e)) : c.before.reverse ++ c.after = before.reverse ++ s ∧
      P c.after ∧ ∀ u, u <:+ s → P u → u <:+ c.after := by
  induction s generalizing before with
  | nil =>
    rw [searchFrom_nil] at hs
    obtain ⟨e', he, heq⟩ := Option.map_eq_some_iff.mp hs
    obtain ⟨rfl, rfl⟩ := Prod.mk.inj heq
    refine ⟨rfl, (h before []).mp fun hnil => ?_, fun u hu _ => hu⟩
    rw [hnil] at he
    cases he
  | cons x s ih =>
    rw [searchFrom_cons] at hs
    rcases hrun : (run r ⟨before, x :: s⟩).head? with _ | e'
    · rw [hrun] at hs
      obtain ⟨heq, hP, hleft⟩ := ih hs
      refine ⟨heq.trans (by rw [List.reverse_cons, List.append_assoc]; rfl), hP, fun u hu hPu => ?_⟩
      rcases List.suffix_cons_iff.mp hu with rfl | hu
      · exact absurd (List.head?_eq_none_iff.mp hrun) ((h before _).mpr hPu)
      · exact hleft u hu hPu
    · rw [hrun] at hs
      obtain ⟨rfl, rfl⟩ := Prod.mk.inj (Option.some.inj hs)
      refine ⟨rfl, (h before _).mp fun hnil => ?_, fun u hu _ => hu⟩
      rw [hnil] at hrun
      cases hrun

theorem search_none {P : List Char → Prop} (h : Begins r P) (hs : search r s = none)
    (hu : u <:+ s) : ¬ P u :=
  searchFrom_none h hs hu

theorem search_some {P : List Char → Prop} {c e : Cursor} (h : Begins r P)
    (hs : search r s = some (c, e)) :
    c.before.reverse ++ c.after = s ∧ P c.after ∧ ∀ u, u <:+ s → P u → u <:+ c.after :=
  searchFrom_some h hs

/-! ### Literals and repetitions -/

theorem run_seq_assoc {a b : Regex} {c : Cursor} :
    run (seq (seq a b) k) c = run (seq a (seq b k)) c := by
  show ((run a c).flatMap (run b)).flatMap (run k) = (run a c).flatMap fun c => _
  rw [List.flatMap_assoc]
  rfl

theorem run_seq_congr {k' : Regex} {c : Cursor} (hk : ∀ c, run k c = run k' c) :
    run (seq r k) c = run (seq r k') c :=
  congrArg (fun f => (run r c).flatMap f) (funext hk)

theorem run_seq_empty {c : Cursor} : run (seq empty k) c = run k c := by
  show [c].flatMap (run k) = _
  rw [List.flatMap_singleton]

theorem run_seq_alt {a b : Regex} {c : Cursor} :
    run (seq (alt a b) k) c = run (seq a k) c ++ run (seq b k) c := by
  show (run a c ++ run b c).flatMap (run k) = _
  rw [List.flatMap_append]
  rfl

theorem run_seq_char : run (seq (char p) k) ⟨before, x :: s⟩ =
    if p x = true then run k ⟨x :: before, s⟩ else [] := by
  show (if p x = true then _ else []).flatMap (run k) = _
  by_cases hx : p x = true
  · rw [if_pos hx, if_pos hx, List.flatMap_singleton]
  · rw [if_neg hx, if_neg hx, List.flatMap_nil]

theorem run_seq_char_nil : run (seq (char p) k) ⟨before, []⟩ = [] := rfl

/-- A literal, and what follows it. -/
theorem run_seq_str {w : String} : run (seq (str w) k) ⟨before, s⟩ =
    if w.toList <+: s then run k ⟨w.toList.reverse ++ before, s.drop w.toList.length⟩ else [] := by
  unfold str word
  induction w.toList generalizing before s with
  | nil => exact run_seq_empty.trans (if_pos List.nil_prefix).symm
  | cons y l ih =>
    rw [List.foldr_cons, run_seq_assoc]
    rcases s with _ | ⟨x, s⟩
    · rw [run_seq_char_nil, if_neg (by simp)]
    · rw [run_seq_char]
      by_cases hpre : y :: l <+: x :: s
      · obtain ⟨rfl, hl⟩ := List.cons_prefix_cons.mp hpre
        rw [if_pos hpre, if_pos (decide_eq_true rfl), ih, if_pos hl, List.reverse_cons,
          List.append_assoc]
        rfl
      · rw [if_neg hpre]
        by_cases hx : y = x
        · subst hx
          have hl : ¬ l <+: s := fun hl => hpre (List.cons_prefix_cons.mpr ⟨rfl, hl⟩)
          rw [if_pos (decide_eq_true rfl), ih, if_neg hl]
        · rw [if_neg (by simpa using hx)]

theorem run_seq_empty_right {c : Cursor} : run (seq r empty) c = run r c :=
  List.flatMap_singleton' _

/-- A literal looks ahead only. -/
theorem reads_str {w : String} :
    Reads (str w) fun s => if w.toList <+: s then some (s.drop w.toList.length) else none := by
  intro before s
  dsimp only
  rw [← run_seq_empty_right, run_seq_str]
  by_cases hw : w.toList <+: s
  · rw [if_pos hw, if_pos hw]
    rfl
  · rw [if_neg hw, if_neg hw]
    rfl

/-- **A repetition** after which nothing of its kind is expected goes on to its end. -/
theorem run_seq_star (hk : ∀ b x s, p x = true → run k ⟨b, x :: s⟩ = []) :
    run (seq (star (char p)) k) ⟨before, s⟩ =
      run k ⟨(s.takeWhile p).reverse ++ before, s.dropWhile p⟩ := by
  have hiterate : ∀ n (before s : List Char), s.length ≤ n →
      (iterate (run (char p)) n ⟨before, s⟩).flatMap (run k) =
        run k ⟨(s.takeWhile p).reverse ++ before, s.dropWhile p⟩ := by
    intro n
    induction n with
    | zero =>
      intro before s hs
      obtain rfl := List.length_eq_zero_iff.mp (Nat.le_zero.mp hs)
      exact List.flatMap_singleton _ _
    | succ n ih =>
      intro before s hs
      rcases s with _ | ⟨x, s⟩
      · exact List.flatMap_singleton _ _
      simp only [iterate_succ, List.flatMap_append, List.flatMap_singleton]
      by_cases hx : p x = true
      · have hstep : run (char p) ⟨before, x :: s⟩ = [⟨x :: before, s⟩] := if_pos hx
        have hlt : s.length < (x :: s).length := Nat.lt_succ_self _
        rw [hstep, List.flatMap_singleton, if_pos hlt, ih _ _ (Nat.le_of_succ_le_succ hs),
          hk before x s hx, List.append_nil, List.takeWhile_cons_of_pos hx,
          List.dropWhile_cons_of_pos hx, List.reverse_cons, List.append_assoc]
        rfl
      · have hstep : run (char p) ⟨before, x :: s⟩ = [] := if_neg hx
        rw [hstep, List.takeWhile_cons_of_neg hx, List.dropWhile_cons_of_neg hx]
        rfl
  exact hiterate _ before s (Nat.le_refl _)

/-- A repetition at the end goes on as long as it can. -/
theorem reads_star : Reads (star (char p)) fun s => some (s.dropWhile p) := by
  have hiterate : ∀ n (before s : List Char), s.length ≤ n →
      ((iterate (run (char p)) n ⟨before, s⟩).head?).map Cursor.after = some (s.dropWhile p) := by
    intro n
    induction n with
    | zero =>
      intro before s hs
      obtain rfl := List.length_eq_zero_iff.mp (Nat.le_zero.mp hs)
      rfl
    | succ n ih =>
      intro before s hs
      rcases s with _ | ⟨x, s⟩
      · rfl
      rw [iterate_succ]
      by_cases hx : p x = true
      · have hstep : run (char p) ⟨before, x :: s⟩ = [⟨x :: before, s⟩] := if_pos hx
        have hlt : s.length < (x :: s).length := Nat.lt_succ_self _
        have hrest := ih (x :: before) s (Nat.le_of_succ_le_succ hs)
        rw [hstep, List.flatMap_singleton, if_pos hlt, List.dropWhile_cons_of_pos hx, ← hrest]
        obtain ⟨e, he, -⟩ := Option.map_eq_some_iff.mp hrest
        rw [List.head?_append, he]
        rfl
      · have hstep : run (char p) ⟨before, x :: s⟩ = [] := if_neg hx
        rw [hstep, List.dropWhile_cons_of_neg hx]
        rfl
  exact fun before s => hiterate _ before s (Nat.le_refl _)

theorem Reads.congr {r' : Regex} (h : Reads r rest) (hr : ∀ c, run r' c = run r c) :
    Reads r' rest :=
  fun before s => (congrArg (fun l => l.head?.map Cursor.after) (hr ⟨before, s⟩)).trans (h before s)

theorem reads_seq_char (h : Reads r rest) : Reads (seq (char p) r) fun s => match s with
    | [] => none
    | x :: s => if p x = true then rest s else none := by
  intro before s
  rcases s with _ | ⟨x, s⟩
  · rfl
  · rw [run_seq_char]
    dsimp only
    by_cases hx : p x = true
    · rw [if_pos hx, if_pos hx]
      exact h _ _
    · rw [if_neg hx, if_neg hx]
      rfl

/-- What follows a class of other characters does not begin with one of it. -/
theorem run_seq_char_of_not (hp : ∀ x, p x = true → ¬ q x = true) (hx : p x = true) :
    run (seq (char q) k) ⟨before, x :: s⟩ = [] := by
  rw [run_seq_char, if_neg (hp x hx)]

end

end Regex
