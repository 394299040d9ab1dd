/-
An answer, checked as a whole.

* `collapsed`, `splitlines` — blanks and lines, which do not matter to citations;
* `validate` — the text that is shown, the dishes that are cited, and how many were never retrieved;
* `Cites`, `cites_validate` — what is counted of an answer;
* `occurs_textOf`, `solid_textOf` — a citation is left in the text exactly if it was torn, and
  nothing else is lost.
-/
import SmartFoodOps.Assistant.Citations
import SmartFoodOps.Assistant.Retrieval
import SmartFoodOps.Assistant.Content

open Erasure Spacing Stripping

namespace Assistant

/-! ### White space -/

abbrev clean_marker : Clean IsMarker isSpace := strips_markerSpace.toClean

/-- `_WHITESPACE.sub(" ", …)`. -/
def collapsed (s : List Char) : List Char := blanks.replaceAll (fun _ => [' ']) s

theorem isSpace_of_isBlank {c : Char} (h : isBlank c = true) : isSpace c = true := by
  unfold isBlank at h
  simp only [Bool.or_eq_true, decide_eq_true_eq] at h
  rcases h with rfl | rfl
  · decide
  · decide

/-- The text after two blanks or more. -/
def afterBlanks : List Char → Option (List Char)
  | x :: y :: s => if isBlank x = true ∧ isBlank y = true then some (s.dropWhile isBlank) else none
  | _ => none

theorem reads_blanks : blanks.Reads afterBlanks := by
  have hassoc : ∀ c, blanks.run c =
      Regex.run (.seq (.char isBlank) (.seq (.char isBlank) (.star (.char isBlank)))) c := by
    intro c
    show Regex.run (.seq (.seq (.char isBlank) (.seq (.char isBlank) .empty)) _) c = _
    rw [Regex.run_seq_assoc]
    refine Regex.run_seq_congr fun c => ?_
    rw [Regex.run_seq_assoc]
    exact Regex.run_seq_congr fun c => Regex.run_seq_empty
  intro before s
  rw [Regex.Reads.congr (Regex.reads_seq_char (Regex.reads_seq_char Regex.reads_star)) hassoc]
  rcases s with _ | ⟨x, _ | ⟨y, s⟩⟩
  · rfl
  · show (if isBlank x = true then none else none) = none
    rw [ite_self]
  · show (if isBlank x = true then if isBlank y = true then _ else none else none) =
      if isBlank x = true ∧ isBlank y = true then _ else none
    rw [ite_and]

/-- Two blanks or more become one space. -/
theorem collapsed_cons (x : Char) (s : List Char) : collapsed (x :: s) = x :: collapsed s ∨
    ∃ w t, x :: s = w ++ t ∧ w ≠ [] ∧ (∀ c ∈ w, isBlank c = true) ∧
      collapsed (x :: s) = ' ' :: collapsed t := by
  rcases hafter : afterBlanks (x :: s) with _ | t
  · exact .inl (Regex.replaceAll_of_not_reads reads_blanks hafter)
  · right
    rcases s with _ | ⟨y, s⟩
    · cases hafter
    have hif : (if isBlank x = true ∧ isBlank y = true then some (s.dropWhile isBlank) else none) =
        some t := hafter
    by_cases hxy : isBlank x = true ∧ isBlank y = true
    · rw [if_pos hxy] at hif
      obtain rfl := Option.some.inj hif
      have hsplit : s.takeWhile isBlank ++ s.dropWhile isBlank = s := List.takeWhile_append_dropWhile
      have hle : (s.dropWhile isBlank).length ≤ (y :: s).length :=
        Nat.le_succ_of_le (List.dropWhile_suffix isBlank).length_le
      refine ⟨x :: y :: s.takeWhile isBlank, s.dropWhile isBlank, ?_, List.cons_ne_nil _ _, ?_,
        Regex.replaceAll_of_reads reads_blanks hafter hle⟩
      · rw [List.cons_append, List.cons_append, hsplit]
      · exact List.forall_mem_cons.mpr ⟨hxy.1, List.forall_mem_cons.mpr ⟨hxy.2,
          fun c => List.mem_takeWhile_imp⟩⟩
    · rw [if_neg hxy] at hif
      cases hif

/-- An induction over a text, by the blanks that are taken together. -/
theorem collapsed_induction {P : List Char → Prop} (hnil : P [])
    (hcons : ∀ x s, collapsed (x :: s) = x :: collapsed s → P s → P (x :: s))
    (hblanks : ∀ w t, w ≠ [] → (∀ c ∈ w, isBlank c = true) →
      collapsed (w ++ t) = ' ' :: collapsed t → P t → P (w ++ t)) (s : List Char) : P s := by
  induction hn : s.length using Nat.strong_induction_on generalizing s with
  | _ n ih =>
    subst hn
    rcases s with _ | ⟨x, s⟩
    · exact hnil
    rcases collapsed_cons x s with heq | ⟨w, t, hw, hne, hblank, heq⟩
    · exact hcons x s heq (ih _ (Nat.lt_succ_self _) s rfl)
    · rw [hw] at heq ⊢
      refine hblanks w t hne hblank heq (ih _ ?_ t rfl)
      have hpos := List.length_pos_iff.mpr hne
      rw [hw, List.length_append]
      omega

section

variable {s : List Char}

theorem forall_isSpace {w : List Char} (hw : ∀ c ∈ w, isBlank c = true) :
    ∀ c ∈ w, isSpace c = true :=
  fun c hc => isSpace_of_isBlank (hw c hc)

theorem respaced_blanks {w : List Char} (hne : w ≠ []) (hw : ∀ c ∈ w, isBlank c = true) :
    Respaced IsMarker isSpace [' '] w :=
  clean_marker.respaced_junk (List.cons_ne_nil _ _) hne (List.forall_mem_singleton.mpr rfl)
    (forall_isSpace hw)

theorem respaced_collapsed : Respaced IsMarker isSpace (collapsed s) s := by
  induction s using collapsed_induction with
  | hnil => exact .refl
  | hcons x s heq ih =>
    rw [heq]
    exact ih.cons x
  | hblanks w t hne hw heq ih =>
    rw [heq]
    exact (respaced_blanks hne hw).append ih

theorem dropWhile_collapsed :
    (collapsed s).dropWhile isSpace = collapsed (s.dropWhile isSpace) := by
  induction s using collapsed_induction with
  | hnil => rfl
  | hcons x s heq ih =>
    rw [heq]
    by_cases hx : isSpace x = true
    · rw [List.dropWhile_cons_of_pos hx, List.dropWhile_cons_of_pos hx, ih]
    · rw [List.dropWhile_cons_of_neg hx, List.dropWhile_cons_of_neg hx, heq]
  | hblanks w t hne hw heq ih =>
    rw [heq, List.dropWhile_cons_of_pos (by decide), ih,
      List.dropWhile_append_of_pos (forall_isSpace hw)]

/-- Collapsing blanks leaves the punctuation behind them where it is. -/
theorem punctuated_collapsed : Punctuated (collapsed s) ↔ Punctuated s := by
  unfold Punctuated
  rw [dropWhile_collapsed]
  rcases hs : s.dropWhile isSpace with _ | ⟨x, t⟩
  · exact Iff.rfl
  · have hx : ¬ isSpace x = true := by
      have hhead := List.head?_dropWhile_not isSpace s
      rw [hs] at hhead
      simpa using hhead
    have heq : collapsed (x :: t) = x :: collapsed t := by
      rcases collapsed_cons x t with heq | ⟨w, t', hw, hne, hblank, -⟩
      · exact heq
      · exfalso
        rcases w with _ | ⟨y, w⟩
        · exact hne rfl
        · obtain ⟨rfl, -⟩ := List.cons.inj hw
          exact hx (isSpace_of_isBlank (hblank x List.mem_cons_self))
    rw [heq]
    constructor
    · rintro ⟨y, u, hyu, hy⟩
      exact ⟨x, t, rfl, (List.cons.inj hyu).1 ▸ hy⟩
    · rintro ⟨y, u, hyu, hy⟩
      exact ⟨x, collapsed t, rfl, (List.cons.inj hyu).1 ▸ hy⟩

/-- White space in front of a text goes if there is punctuation behind it, and stays otherwise. -/
theorem closed_spaces {w : List Char} (hw : ∀ c ∈ w, isSpace c = true) :
    (Punctuated s → closed (w ++ s) = closed s) ∧
      (¬ Punctuated s → closed (w ++ s) = w ++ closed s) := by
  induction w with
  | nil => exact ⟨fun _ => rfl, fun _ => rfl⟩
  | cons c w ih =>
    obtain ⟨hgo, hstay⟩ := ih fun c hc => hw c (List.mem_cons_of_mem _ hc)
    have hiff : Punctuated (w ++ s) ↔ Punctuated s := by
      unfold Punctuated
      rw [List.dropWhile_append_of_pos fun c hc => hw c (List.mem_cons_of_mem _ hc)]
    constructor
    · intro hs
      rw [List.cons_append, closed_cons_punctuated (hw c List.mem_cons_self) (hiff.mpr hs), hgo hs]
    · intro hs
      rw [List.cons_append, closed_cons_space (mt hiff.mp hs), hstay hs, List.cons_append]

theorem respaced_closed_collapsed :
    Respaced IsMarker isSpace (closed (collapsed s)) (closed s) := by
  induction s using collapsed_induction with
  | hnil => exact .refl
  | hcons x s heq ih =>
    rw [heq]
    by_cases hx : isSpace x = true
    · by_cases hs : Punctuated s
      · rw [closed_cons_punctuated hx hs, closed_cons_punctuated hx (punctuated_collapsed.mpr hs)]
        exact ih
      · rw [closed_cons_space hs, closed_cons_space (mt punctuated_collapsed.mp hs)]
        exact ih.cons x
    · rw [closed_cons hx, closed_cons hx]
      exact ih.cons x
  | hblanks w t hne hw heq ih =>
    obtain ⟨hgo, hstay⟩ := closed_spaces (s := t) (forall_isSpace hw)
    have hspace : isSpace ' ' = true := by decide
    rw [heq]
    by_cases ht : Punctuated t
    · rw [hgo ht, closed_cons_punctuated hspace (punctuated_collapsed.mpr ht)]
      exact ih
    · rw [hstay ht, closed_cons_space (mt punctuated_collapsed.mp ht)]
      exact (respaced_blanks hne hw).append ih

theorem solid_closed : solid isSpace (closed s) = solid isSpace s := by
  induction s with
  | nil => rfl
  | cons x s ih =>
    by_cases hx : isSpace x = true
    · rw [solid_cons_junk hx, ← ih]
      by_cases hs : Punctuated s
      · rw [closed_cons_punctuated hx hs]
      · rw [closed_cons_space hs, solid_cons_junk hx]
    · rw [closed_cons hx, solid_cons hx, solid_cons hx, ih]

end

/-! ### Lines -/

/-- Where `str.splitlines` ends a line. -/
def isLineEnd (c : Char) : Bool :=
  let n := c.toNat
  (10 ≤ n && n ≤ 13) || (28 ≤ n && n ≤ 30) || n = 0x85 || n = 0x2028 || n = 0x2029

/-- A line feed after a carriage return ends no line of its own. -/
def linesFrom (afterReturn : Bool) : List Char → List (List Char)
  | [] => []
  | c :: s =>
    if afterReturn = true ∧ c = '\n' then linesFrom false s
    else if isLineEnd c = true then [] :: linesFrom (c = '\r') s
    else match linesFrom false s with
      | [] => [[c]]
      | l :: ls => (c :: l) :: ls

/-- `str.splitlines`. -/
def splitlines (s : List Char) : List (List Char) := linesFrom false s

theorem isSpace_of_isLineEnd {c : Char} (h : isLineEnd c = true) : isSpace c = true := by
  unfold isLineEnd at h
  unfold isSpace
  simp only [Bool.or_eq_true, Bool.and_eq_true, decide_eq_true_eq] at h ⊢
  omega

section

variable {a s : List Char} {c : Char} {afterReturn : Bool}

theorem linesFrom_eq_nil (h : linesFrom false s = []) : s = [] := by
  rcases s with _ | ⟨c, s⟩
  · rfl
  · exfalso
    unfold linesFrom at h
    rw [if_neg (by simp)] at h
    by_cases hc : isLineEnd c = true
    · rw [if_pos hc] at h
      cases h
    · rw [if_neg hc] at h
      rcases hs : linesFrom false s with _ | ⟨l, ls⟩
      · rw [hs] at h
        cases h
      · rw [hs] at h
        cases h

theorem solid_linesFrom :
    (linesFrom afterReturn s).flatMap (solid isSpace) = solid isSpace s := by
  induction s generalizing afterReturn with
  | nil => rfl
  | cons c s ih =>
    unfold linesFrom
    by_cases hskip : afterReturn = true ∧ c = '\n'
    · rw [if_pos hskip, hskip.2, ih, solid_cons_junk (by decide)]
    rw [if_neg hskip]
    by_cases hc : isLineEnd c = true
    · rw [if_pos hc, List.flatMap_cons, ih, solid_cons_junk (isSpace_of_isLineEnd hc)]
      rfl
    · have hrest := @ih false
      rw [if_neg hc]
      rcases hs : linesFrom false s with _ | ⟨l, ls⟩
      · rw [linesFrom_eq_nil hs]
        exact List.flatMap_singleton _ _
      · rw [hs, List.flatMap_cons] at hrest
        show (([c] ++ l) :: ls).flatMap (solid isSpace) = solid isSpace ([c] ++ s)
        rw [List.flatMap_cons, solid_append, solid_append, List.append_assoc, hrest]

/-- A citation stands in the text that begins with `a` if it stands in its first line, or in one of
the others. -/
theorem occurs_linesFrom : Occurs IsMarker (a ++ s) ↔ match linesFrom false s with
    | [] => Occurs IsMarker a
    | l :: ls => Occurs IsMarker (a ++ l) ∨ ∃ l' ∈ ls, Occurs IsMarker l' := by
  induction hn : s.length using Nat.strong_induction_on generalizing a s with
  | _ n ih =>
    subst hn
    rcases s with _ | ⟨c, s⟩
    · show Occurs IsMarker (a ++ []) ↔ Occurs IsMarker a
      rw [List.append_nil]
    unfold linesFrom
    rw [if_neg (by simp)]
    by_cases hc : isLineEnd c = true
    · rw [if_pos hc, clean_marker.occurs_append_cons (isSpace_of_isLineEnd hc)]
      show _ ↔ Occurs IsMarker (a ++ []) ∨ _
      rw [List.append_nil]
      refine or_congr_right ?_
      have hlines : ∀ s', s'.length ≤ s.length →
          (Occurs IsMarker s' ↔ ∃ l' ∈ linesFrom false s', Occurs IsMarker l') := by
        intro s' hle
        have hrest := ih s'.length (Nat.lt_succ_of_le hle) (a := []) (s := s') rfl
        rw [List.nil_append] at hrest
        rw [hrest]
        rcases linesFrom false s' with _ | ⟨l, ls⟩
        · exact ⟨fun h => absurd h clean_marker.not_occurs_nil, fun ⟨l, hl, _⟩ => by cases hl⟩
        · exact (List.exists_mem_cons_iff _ _ _).symm
      by_cases hr : c = '\r'
      · rw [decide_eq_true hr]
        rcases s with _ | ⟨d, s⟩
        · exact hlines [] (Nat.le_refl _)
        by_cases hd : d = '\n'
        · have hskip : linesFrom true (d :: s) = linesFrom false s := if_pos ⟨rfl, hd⟩
          rw [hskip, hd, clean_marker.occurs_cons (by decide)]
          exact hlines s (Nat.le_succ _)
        · have hkeep : linesFrom true (d :: s) = linesFrom false (d :: s) := by
            have hno : ¬ (true = true ∧ d = '\n') := fun h => hd h.2
            have hno' : ¬ (false = true ∧ d = '\n') := fun h => hd h.2
            unfold linesFrom
            rw [if_neg hno, if_neg hno']
          rw [hkeep]
          exact hlines _ (Nat.le_refl _)
      · rw [decide_eq_false hr]
        exact hlines s (Nat.le_refl _)
    · have hrest := ih s.length (Nat.lt_succ_self _) (a := a ++ [c]) (s := s) rfl
      rw [List.append_assoc] at hrest
      rw [if_neg hc]
      refine Iff.trans hrest ?_
      rcases linesFrom false s with _ | ⟨l, ls⟩
      · exact (or_iff_left fun ⟨l, hl, _⟩ => by cases hl).symm
      · show Occurs IsMarker (a ++ [c] ++ l) ∨ _ ↔ Occurs IsMarker (a ++ c :: l) ∨ _
        rw [List.append_assoc]
        rfl

theorem occurs_splitlines :
    Occurs IsMarker s ↔ ∃ l ∈ splitlines s, Occurs IsMarker l := by
  have hrest := @occurs_linesFrom [] s
  rw [List.nil_append] at hrest
  rw [hrest]
  unfold splitlines
  rcases linesFrom false s with _ | ⟨l, ls⟩
  · exact ⟨fun h => absurd h clean_marker.not_occurs_nil, fun ⟨l, hl, _⟩ => by cases hl⟩
  · exact (List.exists_mem_cons_iff _ _ _).symm

end

/-! ### The check -/

/-- `Grounded`. -/
structure Validated where
  text : String
  itemIds : List String
  dropped : ℕ
  deriving DecidableEq

/-- One citation of the loop. -/
def tally (allowed : List String) (r : List String × ℕ) (itemId : String) : List String × ℕ :=
  if itemId ∈ allowed then
    if itemId ∉ r.1 then (r.1 ++ [itemId], r.2) else r
  else (r.1, r.2 + 1)

/-- The answer's text, as it is shown. -/
def textOf (answer : String) : String :=
  let text := closed (collapsed (unmarked answer.toList))
  Generation.strip (String.ofList (['\n'].intercalate ((splitlines text).map fun line =>
    (Generation.strip (String.ofList line)).toList)))

def validate (answer : String) (allowed : List String) : Validated :=
  let r := (markersOf answer).foldl (tally allowed) ([], 0)
  ⟨textOf answer, r.1, r.2⟩

/-- The dishes are those that are cited and allowed, once each and in the order of their first
citation; the citations of others are counted. -/
structure Cites (cited allowed itemIds : List String) (dropped : ℕ) : Prop where
  nodup : itemIds.Nodup
  mem : ∀ i, i ∈ itemIds ↔ i ∈ cited ∧ i ∈ allowed
  order : itemIds.Pairwise fun i j => cited.idxOf i < cited.idxOf j
  dropped : dropped = cited.countP fun i => i ∉ allowed

theorem cites_tally (cited allowed : List String) :
    Cites cited allowed (cited.foldl (tally allowed) ([], 0)).1
      (cited.foldl (tally allowed) ([], 0)).2 := by
  induction cited using List.reverseRecOn with
  | nil => exact ⟨List.nodup_nil, by simp, .nil, rfl⟩
  | append_singleton cited i ih =>
    rw [List.foldl_append]
    generalize cited.foldl (tally allowed) ([], 0) = r at ih ⊢
    obtain ⟨ids, n⟩ := r
    obtain ⟨hnodup, hmem, horder, hdropped⟩ := ih
    dsimp only at hnodup hmem horder hdropped
    -- the first citation of what has been cited stays where it is
    have hidx : ∀ j ∈ ids, (cited ++ [i]).idxOf j = cited.idxOf j := fun j hj =>
      List.idxOf_append_of_mem ((hmem j).mp hj).1
    have horder' : ids.Pairwise fun j k => (cited ++ [i]).idxOf j < (cited ++ [i]).idxOf k :=
      horder.imp_of_mem fun hj hk hlt => by rwa [hidx _ hj, hidx _ hk]
    show Cites _ _ (tally allowed (ids, n) i).1 (tally allowed (ids, n) i).2
    unfold tally
    by_cases hi : i ∈ allowed
    · have hcount : n = (cited ++ [i]).countP fun i => i ∉ allowed := by
        rw [List.countP_append, hdropped]
        simp [hi]
      rw [if_pos hi]
      by_cases hseen : i ∉ ids
      · rw [if_pos hseen]
        have hnew : i ∉ cited := fun h => hseen ((hmem i).mpr ⟨h, hi⟩)
        refine ⟨?_, fun j => ?_, ?_, hcount⟩
        · exact List.nodup_append.mpr ⟨hnodup, List.nodup_singleton i, fun j hj k hk => by
            rw [List.mem_singleton.mp hk]
            rintro rfl
            exact hseen hj⟩
        · rw [List.mem_append, List.mem_append, hmem j, List.mem_singleton]
          constructor
          · rintro (⟨hj, ha⟩ | rfl)
            · exact ⟨.inl hj, ha⟩
            · exact ⟨.inr rfl, hi⟩
          · rintro ⟨hj | rfl, ha⟩
            · exact .inl ⟨hj, ha⟩
            · exact .inr rfl
        · refine List.pairwise_append.mpr ⟨horder', List.pairwise_singleton _ i, ?_⟩
          intro j hj k hk
          rw [List.mem_singleton.mp hk, hidx j hj, List.idxOf_append_of_notMem hnew]
          exact Nat.lt_add_right _ (List.idxOf_lt_length_of_mem ((hmem j).mp hj).1)
      · rw [if_neg hseen]
        have hold : i ∈ cited := ((hmem i).mp (not_not.mp hseen)).1
        refine ⟨hnodup, fun j => ?_, horder', hcount⟩
        rw [hmem j, List.mem_append, List.mem_singleton]
        refine and_congr_left fun _ => ⟨.inl, ?_⟩
        rintro (hj | rfl)
        · exact hj
        · exact hold
    · rw [if_neg hi]
      refine ⟨hnodup, fun j => ?_, horder', ?_⟩
      · rw [hmem j, List.mem_append, List.mem_singleton]
        refine and_congr_left fun ha => ⟨.inl, ?_⟩
        rintro (hj | rfl)
        · exact hj
        · exact absurd ha hi
      · rw [List.countP_append, hdropped]
        simp [hi]

/-- The loop, at once. -/
theorem tally_eq (cited allowed : List String) : cited.foldl (tally allowed) ([], 0) =
    ((cited.filter fun i => i ∈ allowed).eraseDups, cited.countP fun i => i ∉ allowed) := by
  refine Prod.ext ?_ (cites_tally cited allowed).dropped
  induction cited using List.reverseRecOn with
  | nil => rfl
  | append_singleton cited i ih =>
    have hmem := (cites_tally cited allowed).mem i
    rw [List.foldl_append, List.filter_append, List.eraseDups_append]
    generalize cited.foldl (tally allowed) ([], 0) = r at ih hmem ⊢
    show (tally allowed r i).1 = _
    dsimp only at ih ⊢
    rw [← ih]
    unfold tally
    by_cases hi : i ∈ allowed
    · rw [if_pos hi, List.filter_cons_of_pos (by simpa using hi), List.filter_nil]
      by_cases hseen : i ∈ r.1
      · have hold : i ∈ cited := (hmem.mp hseen).1
        simp [hseen, List.removeAll, hold, hi]
      · have hnew : i ∉ cited := fun h => hseen (hmem.mpr ⟨h, hi⟩)
        simp [hseen, List.removeAll, hnew, List.eraseDups_cons]
    · rw [if_neg hi, List.filter_cons_of_neg (by simpa using hi), List.filter_nil]
      simp [List.removeAll]

theorem validate_eq (answer : String) (allowed : List String) : validate answer allowed =
    ⟨textOf answer, ((markersOf answer).filter fun i => i ∈ allowed).eraseDups,
      (markersOf answer).countP fun i => i ∉ allowed⟩ := by
  unfold validate
  rw [tally_eq]

/-- **What is counted of an answer.** -/
theorem cites_validate (answer : String) (allowed : List String) :
    Cites (markersOf answer) allowed (validate answer allowed).itemIds
      (validate answer allowed).dropped :=
  cites_tally (markersOf answer) allowed

/-! ### The text that is shown -/

section

variable {s : List Char}

theorem toList_strip (s : List Char) : (Generation.strip (String.ofList s)).toList =
    ((s.dropWhile isSpace).reverse.dropWhile isSpace).reverse := by
  unfold Generation.strip
  rw [String.toList_ofList, String.toList_ofList]

/-- What `strip` takes from the end is white space. -/
theorem exists_eq_strip (s : List Char) : ∃ w, (∀ c ∈ w, isSpace c = true) ∧
    s.dropWhile isSpace = (Generation.strip (String.ofList s)).toList ++ w := by
  rw [toList_strip]
  have hsplit : (s.dropWhile isSpace).reverse.takeWhile isSpace ++
      (s.dropWhile isSpace).reverse.dropWhile isSpace = (s.dropWhile isSpace).reverse :=
    List.takeWhile_append_dropWhile
  refine ⟨((s.dropWhile isSpace).reverse.takeWhile isSpace).reverse, fun c hc => ?_, ?_⟩
  · exact List.mem_takeWhile_imp (List.mem_reverse.mp hc)
  · rw [← List.reverse_append, hsplit, List.reverse_reverse]

theorem occurs_strip :
    Occurs IsMarker (Generation.strip (String.ofList s)).toList ↔ Occurs IsMarker s := by
  obtain ⟨w, hw, heq⟩ := exists_eq_strip s
  rw [← clean_marker.occurs_append hw, ← heq]
  exact clean_marker.occurs_dropWhile fun _ h => h

theorem solid_strip :
    solid isSpace (Generation.strip (String.ofList s)).toList = solid isSpace s := by
  obtain ⟨w, hw, heq⟩ := exists_eq_strip s
  have hdrop : solid isSpace (s.dropWhile isSpace) = solid isSpace s :=
    solid_dropWhile fun _ h => h
  rw [← hdrop, heq, solid_append, solid_junk hw, List.append_nil]

theorem occurs_lines {ls : List (List Char)} :
    Occurs IsMarker (['\n'].intercalate ls) ↔ ∃ l ∈ ls, Occurs IsMarker l := by
  induction ls with
  | nil => exact ⟨fun h => absurd h clean_marker.not_occurs_nil, fun ⟨l, hl, _⟩ => by cases hl⟩
  | cons l ls ih =>
    rw [List.exists_mem_cons_iff]
    rcases ls with _ | ⟨l', ls⟩
    · rw [List.intercalate_singleton]
      exact (or_iff_left fun ⟨l, hl, _⟩ => by cases hl).symm
    · rw [List.intercalate_cons_cons, List.append_assoc, List.singleton_append,
        clean_marker.occurs_append_cons (by decide), ih]

theorem solid_lines {ls : List (List Char)} :
    solid isSpace (['\n'].intercalate ls) = ls.flatMap (solid isSpace) := by
  induction ls with
  | nil => rfl
  | cons l ls ih =>
    rcases ls with _ | ⟨l', ls⟩
    · rw [List.intercalate_singleton]
      exact (List.flatMap_singleton _ _).symm
    · rw [List.intercalate_cons_cons, List.append_assoc, List.singleton_append, solid_append,
        solid_cons_junk (by decide), ih]
      exact List.flatMap_cons.symm

end

/-- **A citation is left in the text** exactly if the answer has a torn one. -/
theorem occurs_textOf (answer : String) :
    Occurs IsMarker (textOf answer).toList ↔ Torn answer := by
  unfold textOf
  dsimp only
  rw [occurs_strip, occurs_lines]
  simp only [List.mem_map, exists_exists_and_eq_and]
  have hlines : (∃ l ∈ splitlines (closed (collapsed (unmarked answer.toList))),
      Occurs IsMarker (Generation.strip (String.ofList l)).toList) ↔
        Occurs IsMarker (closed (collapsed (unmarked answer.toList))) := by
    rw [occurs_splitlines]
    exact exists_congr fun l => and_congr_right fun _ => occurs_strip
  rw [hlines, respaced_closed_collapsed.occurs_iff]
  exact erases_closed.exposed_iff

/-- The text is the answer without its citations, up to white space. -/
theorem solid_textOf (answer : String) :
    solid isSpace (textOf answer).toList = solid isSpace (unmarked answer.toList) := by
  unfold textOf
  dsimp only
  rw [solid_strip, solid_lines, List.flatMap_map]
  have hlines : (splitlines (closed (collapsed (unmarked answer.toList)))).flatMap
      (fun l => solid isSpace (Generation.strip (String.ofList l)).toList) =
        (splitlines (closed (collapsed (unmarked answer.toList)))).flatMap (solid isSpace) :=
    List.flatMap_congr fun l _ => solid_strip
  rw [hlines]
  exact solid_linesFrom.trans (solid_closed.trans respaced_collapsed.solid)

end Assistant
