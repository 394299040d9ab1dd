/-
Citations, and how they are taken out of a text.

* `IsMarker`, `code_marker` — the citations are a code, and what the matcher finds
  (`occurs_marker`);
* `strips_marker`, `strips_markerSpace` — both substitutions strip it;
* `closed` — the white space before a sign of punctuation goes;
* `Torn`, `erases_closed` — both together are an erasure, which exposes a citation that is torn.
-/
import SmartFoodOps.Lib.Stripping
import SmartFoodOps.Assistant.Grounding

open Erasure Spacing Stripping

namespace Assistant

/-! ### Citations -/

/-- A whole match of `MARKER`. -/
def IsMarker (m : List Char) : Prop :=
  ∃ w, w ≠ [] ∧ (∀ c ∈ w, isIdChar c = true) ∧ m = "[item:".toList ++ (w ++ [']'])

theorem toList_opening : "[item:".toList = ['[', 'i', 't', 'e', 'm', ':'] := String.toList_ofList

theorem bounds_of_isIdChar {c : Char} (h : isIdChar c = true) :
    45 ≤ c.toNat ∧ c.toNat ≤ 122 ∧ c.toNat ≠ 91 ∧ c.toNat ≠ 93 := by
  have hbetween : ∀ a b : UInt32, c.val ≥ a ∧ c.val ≤ b → a.toNat ≤ c.toNat ∧ c.toNat ≤ b.toNat :=
    fun a b h => ⟨UInt32.le_iff_toNat_le.mp h.1, UInt32.le_iff_toNat_le.mp h.2⟩
  have hcases : (((((decide (c.val ≥ 65 ∧ c.val ≤ 90) ||
      (decide (c.val ≥ 97) && decide (c.val ≤ 122))) ||
      (decide (c.val ≥ 48) && decide (c.val ≤ 57))) || decide (c = '_')) || decide (c = '.')) ||
      decide (c = ':') || decide (c = '-')) = true := h
  simp only [Bool.or_eq_true, Bool.and_eq_true, decide_eq_true_eq] at hcases
  rcases hcases with ((((((h | h) | h) | rfl) | rfl) | rfl) | rfl)
  · obtain ⟨hlow, hhigh⟩ : 65 ≤ c.toNat ∧ c.toNat ≤ 90 := hbetween 65 90 h
    omega
  · obtain ⟨hlow, hhigh⟩ : 97 ≤ c.toNat ∧ c.toNat ≤ 122 := hbetween 97 122 h
    omega
  · obtain ⟨hlow, hhigh⟩ : 48 ≤ c.toNat ∧ c.toNat ≤ 57 := hbetween 48 57 h
    omega
  all_goals decide

/-- No character of an identifier is a bracket, or white space. -/
theorem isIdChar_apart {c : Char} (h : isIdChar c = true) :
    c ≠ '[' ∧ c ≠ ']' ∧ ¬ isSpace c = true := by
  obtain ⟨hlow, hhigh, hopen, hclose⟩ := bounds_of_isIdChar h
  refine ⟨?_, ?_, ?_⟩
  · rintro rfl
    exact hopen rfl
  · rintro rfl
    exact hclose rfl
  · unfold isSpace
    simp only [Bool.or_eq_true, Bool.and_eq_true, decide_eq_true_eq]
    omega

theorem isIdChar_of_mem {c : Char} (h : c ∈ ['i', 't', 'e', 'm', ':']) : isIdChar c = true :=
  List.all_eq_true.mp (by decide) c h

/-- A citation is one bracket, what is neither bracket nor white space, and another bracket. -/
theorem IsMarker.exists_eq {m : List Char} (h : IsMarker m) :
    ∃ w, m = '[' :: (w ++ [']']) ∧ ∀ c ∈ w, c ≠ '[' ∧ c ≠ ']' ∧ ¬ isSpace c = true := by
  obtain ⟨w, -, hw, rfl⟩ := h
  refine ⟨['i', 't', 'e', 'm', ':'] ++ w, by rw [toList_opening, List.append_assoc]; rfl, ?_⟩
  intro c hc
  rcases List.mem_append.mp hc with hc | hc
  · exact isIdChar_apart (isIdChar_of_mem hc)
  · exact isIdChar_apart (hw c hc)

theorem code_marker : Code IsMarker where
  ne_nil := by
    intro F hF
    obtain ⟨w, rfl, -⟩ := hF.exists_eq
    exact List.cons_ne_nil _ _
  apart := by
    intro F G q hF hG hne hsuffix hprefix
    obtain ⟨w, rfl, hw⟩ := hF.exists_eq
    obtain ⟨w', rfl, -⟩ := hG.exists_eq
    -- a bracket opens at the front only
    rcases q with _ | ⟨x, q⟩
    · exact absurd rfl hne
    obtain ⟨rfl, -⟩ := List.cons_prefix_cons.mp hprefix
    rcases List.suffix_cons_iff.mp hsuffix with heq | hin
    · exact heq
    · exfalso
      rcases List.mem_append.mp (hin.subset List.mem_cons_self) with hmem | hmem
      · exact (hw _ hmem).1 rfl
      · exact absurd (List.mem_singleton.mp hmem) (by decide)
  whole := by
    intro F G hF hG hin
    obtain ⟨w, rfl, hw⟩ := hF.exists_eq
    obtain ⟨w', rfl, -⟩ := hG.exists_eq
    rcases List.infix_cons_iff.mp hin with hp | hin
    · obtain ⟨-, hp⟩ := List.cons_prefix_cons.mp hp
      -- and one closes at the end only
      obtain ⟨t, ht⟩ := hp
      rw [List.append_assoc] at ht
      rcases List.append_eq_append_iff.mp ht with ⟨b, rfl, hb⟩ | ⟨b, rfl, hb⟩
      · rcases b with _ | ⟨y, b⟩
        · rw [List.append_nil]
        · exfalso
          obtain ⟨rfl, -⟩ := List.cons.inj hb
          exact (hw _ (List.mem_append_right w' List.mem_cons_self)).2.1 rfl
      · rcases b with _ | ⟨y, b⟩
        · rw [List.append_nil]
        · obtain ⟨-, hnil⟩ := List.cons.inj hb
          exact absurd hnil.symm (List.append_ne_nil_of_right_ne_nil b (List.cons_ne_nil _ _))
    · exfalso
      rcases List.mem_append.mp (hin.subset List.mem_cons_self) with hmem | hmem
      · exact (hw _ hmem).1 rfl
      · exact absurd (List.mem_singleton.mp hmem) (by decide)

theorem not_isSpace_of_marker {m : List Char} {c : Char} (h : IsMarker m) (hc : c ∈ m) :
    ¬ isSpace c = true := by
  obtain ⟨w, rfl, hw⟩ := h.exists_eq
  rcases List.mem_cons.mp hc with rfl | hc
  · decide
  · rcases List.mem_append.mp hc with hc | hc
    · exact (hw c hc).2.2
    · rw [List.mem_singleton.mp hc]
      decide

/-- The text after a citation that begins here. -/
def afterMarker (s : List Char) : Option (List Char) :=
  if "[item:".toList <+: s then
    match s.drop "[item:".toList.length with
    | [] => none
    | x :: s => if isIdChar x = true then
        match s.dropWhile isIdChar with
        | [] => none
        | y :: t => if (decide (y = ']')) = true then some t else none
      else none
  else none

theorem reads_marker : Regex.Reads marker afterMarker := by
  intro before s
  have hstop : ∀ b x s, isIdChar x = true →
      Regex.run (.seq (.lit ']') .empty) ⟨b, x :: s⟩ = [] := by
    intro b x s hx
    refine Regex.run_seq_char_of_not (p := isIdChar) (fun x hx => ?_) hx
    rintro h
    obtain rfl := of_decide_eq_true h
    exact absurd hx (by decide)
  unfold marker afterMarker Regex.seqs
  simp only [List.foldr_cons, List.foldr_nil]
  rw [Regex.run_seq_str]
  by_cases hp : "[item:".toList <+: s
  · rw [if_pos hp, if_pos hp]
    rcases s.drop "[item:".toList.length with _ | ⟨x, s⟩
    · rfl
    · show (Regex.run (.seq (.seq (.char isIdChar) (.star (.char isIdChar))) _) _).head?.map _ = _
      rw [Regex.run_seq_assoc, Regex.run_seq_char]
      dsimp only
      by_cases hx : isIdChar x = true
      · rw [if_pos hx, if_pos hx, Regex.run_seq_star hstop]
        rcases s.dropWhile isIdChar with _ | ⟨y, t⟩
        · rfl
        · dsimp only
          show (Regex.run (.seq (.char fun y => decide (y = ']')) _) _).head?.map _ = _
          rw [Regex.run_seq_char]
          by_cases hy : decide (y = ']') = true
          · rw [if_pos hy, if_pos hy]
            rfl
          · rw [if_neg hy, if_neg hy]
            rfl
      · rw [if_neg hx, if_neg hx]
        rfl
  · rw [if_neg hp, if_neg hp]
    rfl

/-- **A citation begins here** exactly if the matcher finds one. -/
theorem afterMarker_eq_some {s t : List Char} :
    afterMarker s = some t ↔ ∃ m, IsMarker m ∧ s = m ++ t := by
  constructor
  · intro h
    unfold afterMarker at h
    by_cases hp : "[item:".toList <+: s
    · rw [if_pos hp] at h
      obtain ⟨s, rfl⟩ := hp
      rw [List.drop_left] at h
      rcases s with _ | ⟨x, s⟩
      · cases h
      dsimp only at h
      by_cases hx : isIdChar x = true
      · rw [if_pos hx] at h
        obtain ⟨w, hw, hsplit⟩ : ∃ w, (∀ c ∈ w, isIdChar c = true) ∧ w ++ s.dropWhile isIdChar = s :=
          ⟨s.takeWhile isIdChar, fun c => List.mem_takeWhile_imp, List.takeWhile_append_dropWhile⟩
        rcases hs : s.dropWhile isIdChar with _ | ⟨y, t'⟩
        · rw [hs] at h
          cases h
        rw [hs] at h hsplit
        dsimp only at h
        by_cases hy : decide (y = ']') = true
        · rw [if_pos hy] at h
          obtain rfl := Option.some.inj h
          obtain rfl := of_decide_eq_true hy
          refine ⟨_, ⟨x :: w, List.cons_ne_nil x w, List.forall_mem_cons.mpr ⟨hx, hw⟩, rfl⟩, ?_⟩
          rw [← hsplit]
          simp only [List.append_assoc, List.cons_append, List.nil_append]
        · rw [if_neg hy] at h
          cases h
      · rw [if_neg hx] at h
        cases h
    · rw [if_neg hp] at h
      cases h
  · rintro ⟨m, ⟨w, hne, hw, rfl⟩, rfl⟩
    rcases w with _ | ⟨x, w⟩
    · exact absurd rfl hne
    have hx := hw x List.mem_cons_self
    have hrest : (w ++ ']' :: t).dropWhile isIdChar = ']' :: t := by
      rw [List.dropWhile_append_of_pos fun c hc => hw c (List.mem_cons_of_mem _ hc)]
      exact List.dropWhile_cons_of_neg (by decide)
    unfold afterMarker
    rw [List.append_assoc, if_pos (List.prefix_append _ _), List.drop_left, List.append_assoc]
    show (if isIdChar x = true then _ else _) = _
    rw [if_pos hx]
    show (match (w ++ ']' :: t).dropWhile isIdChar with
      | [] => none
      | y :: t => if (decide (y = ']')) = true then some t else none) = some t
    rw [hrest]
    rfl


/-- **What the matcher finds.** -/
theorem occurs_marker {s : List Char} : marker.occurs s = true ↔ Occurs IsMarker s := by
  rw [Regex.occurs_iff reads_marker]
  constructor
  · rintro ⟨u, hu, hr⟩
    obtain ⟨t, ht⟩ := Option.isSome_iff_exists.mp hr
    obtain ⟨m, hm, rfl⟩ := afterMarker_eq_some.mp ht
    exact ⟨m, hm, (List.prefix_append m t).isInfix.trans hu.isInfix⟩
  · rintro ⟨m, hm, a, t, rfl⟩
    refine ⟨m ++ t, ⟨a, (List.append_assoc a m t).symm⟩, Option.isSome_iff_exists.mpr ⟨t, ?_⟩⟩
    exact afterMarker_eq_some.mpr ⟨m, hm, rfl⟩

theorem occurs_marker_eq_false {s : List Char} :
    marker.occurs s = false ↔ ¬ Occurs IsMarker s := by
  rw [← occurs_marker, Bool.not_eq_true]

/-! ### The two substitutions -/

/-- A matcher of citations, by the text after its match, strips them. -/
theorem strips_of_reads {r : Regex} {junk : Char → Bool} (h : r.Reads fun s =>
    (afterMarker s).map (skip junk)) (hjunk : ∀ c, junk c = true → isSpace c = true) :
    Strips IsMarker junk (r.replaceAll fun _ => []) where
  code := code_marker
  clean := fun hF hx hj => not_isSpace_of_marker hF hx (hjunk _ hj)
  nil := rfl
  word := by
    intro F s hF
    have hafter : afterMarker (F ++ s) = some s := afterMarker_eq_some.mpr ⟨F, hF, rfl⟩
    obtain ⟨w, rfl, -⟩ := hF.exists_eq
    have hrest : (fun s => (afterMarker s).map (skip junk)) ('[' :: (w ++ [']'] ++ s)) =
        some (skip junk s) := congrArg (Option.map (skip junk)) hafter
    have hle : (skip junk s).length ≤ (w ++ [']'] ++ s).length := by
      have hskip : (skip junk s).length ≤ s.length := length_skip
      rw [List.length_append]
      omega
    exact (Regex.replaceAll_of_reads h hrest hle).trans (List.nil_append _)
  kept := by
    intro x s hclear
    have hafter : afterMarker (x :: s) = none := by
      refine Option.eq_none_iff_forall_not_mem.mpr fun t ht => ?_
      obtain ⟨m, hm, heq⟩ := afterMarker_eq_some.mp ht
      exact hclear m hm ⟨t, heq.symm⟩
    exact Regex.replaceAll_of_not_reads h (congrArg (Option.map (skip junk)) hafter)

/-- `MARKER.sub("", …)`. -/
def unmarked (s : List Char) : List Char := marker.replaceAll (fun _ => []) s

/-- `_MARKER_SPACE.sub("", …)`. -/
def unspaced (s : List Char) : List Char := markerSpace.replaceAll (fun _ => []) s

theorem strips_marker : Strips IsMarker (fun _ => false) unmarked := by
  refine strips_of_reads (fun before s => ?_) (fun _ h => by cases h)
  rw [reads_marker before s]
  have hskip : skip (fun _ : Char => false) = id := funext fun _ => skip_false
  rw [hskip, Option.map_id]
  rfl

theorem strips_markerSpace : Strips IsMarker isSpace unspaced := by
  refine strips_of_reads (fun before s => ?_) fun _ h => h
  have hopt : ∀ e : Cursor, ((Regex.run (.opt (.char isSpace)) e).head?).map Cursor.after =
      some (skip isSpace e.after) := by
    rintro ⟨b, _ | ⟨x, s⟩⟩
    · rfl
    · show ((if isSpace x = true then _ else []) ++ _).head?.map _ = _
      by_cases hx : isSpace x = true
      · rw [if_pos hx, skip_cons_junk hx]
        rfl
      · rw [if_neg hx, skip_cons hx]
        rfl
  show _ = (afterMarker s).map (skip isSpace)
  rw [← reads_marker before s]
  show ((Regex.run marker ⟨before, s⟩).flatMap (Regex.run (.opt (.char isSpace)))).head?.map _ = _
  rcases Regex.run marker ⟨before, s⟩ with _ | ⟨e, es⟩
  · rfl
  · obtain ⟨e', he', hafter⟩ := Option.map_eq_some_iff.mp (hopt e)
    rw [List.flatMap_cons, List.head?_append, he']
    exact congrArg some hafter

/-! ### Space before punctuation -/

def isPunct (c : Char) : Bool := c ∈ [',', '.', ';', ':', '!', '?']

/-- `_SPACE_BEFORE_PUNCT`. -/
def spaceBeforePunct : Regex := .seq (.plus (.char isSpace)) (.char isPunct)

/-- `_SPACE_BEFORE_PUNCT.sub(r"\1", …)`: the match's last character stays. -/
def closed (s : List Char) : List Char := spaceBeforePunct.replaceAll (fun m => m.getLast?.toList) s

/-- After the white space that the text begins with, if there is any, comes punctuation. -/
def Punctuated (s : List Char) : Prop := ∃ y t, s.dropWhile isSpace = y :: t ∧ isPunct y = true

theorem not_isSpace_of_isPunct {c : Char} (h : isPunct c = true) : ¬ isSpace c = true := by
  have hall : [',', '.', ';', ':', '!', '?'].all (fun c => ! isSpace c) = true := by decide
  simpa using List.all_eq_true.mp hall c (of_decide_eq_true h)

/-- The text after white space and punctuation. -/
def afterPunct : List Char → Option (List Char)
  | [] => none
  | x :: s => if isSpace x = true then
      match s.dropWhile isSpace with
      | [] => none
      | y :: t => if isPunct y = true then some t else none
    else none

theorem reads_spaceBeforePunct : spaceBeforePunct.Reads afterPunct := by
  intro before s
  have hstop : ∀ b x s, isSpace x = true → Regex.run (.char isPunct) ⟨b, x :: s⟩ = [] :=
    fun b x s hx => if_neg fun hp => not_isSpace_of_isPunct hp hx
  show (Regex.run (.seq (.seq (.char isSpace) (.star (.char isSpace))) _) _).head?.map _ = _
  rw [Regex.run_seq_assoc]
  rcases s with _ | ⟨x, s⟩
  · rfl
  rw [Regex.run_seq_char]
  unfold afterPunct
  dsimp only
  by_cases hx : isSpace x = true
  · rw [if_pos hx, if_pos hx, Regex.run_seq_star hstop]
    rcases s.dropWhile isSpace with _ | ⟨y, t⟩
    · rfl
    · show (if isPunct y = true then _ else []).head?.map _ = if isPunct y = true then _ else _
      by_cases hy : isPunct y = true
      · rw [if_pos hy, if_pos hy]
        rfl
      · rw [if_neg hy, if_neg hy]
        rfl
  · rw [if_neg hx, if_neg hx]
    rfl

section

variable {x : Char} {s t : List Char}

theorem closed_cons (hx : ¬ isSpace x = true) : closed (x :: s) = x :: closed s :=
  Regex.replaceAll_of_not_reads reads_spaceBeforePunct (if_neg hx)

theorem closed_cons_space (hs : ¬ Punctuated s) : closed (x :: s) = x :: closed s := by
  refine Regex.replaceAll_of_not_reads reads_spaceBeforePunct ?_
  unfold afterPunct
  dsimp only
  by_cases hx : isSpace x = true
  · rw [if_pos hx]
    rcases hd : s.dropWhile isSpace with _ | ⟨y, t⟩
    · rfl
    · exact if_neg fun hy => hs ⟨y, t, hd, hy⟩
  · rw [if_neg hx]

/-- White space before punctuation goes, and the punctuation stays. -/
theorem closed_of_dropWhile {y : Char} (hs : s.dropWhile isSpace = y :: t) (hy : isPunct y = true) :
    closed s = y :: closed t := by
  obtain ⟨w, hw, rfl⟩ : ∃ w, (∀ c ∈ w, isSpace c = true) ∧ s = w ++ y :: t :=
    ⟨s.takeWhile isSpace, fun c => List.mem_takeWhile_imp,
      by rw [← hs, List.takeWhile_append_dropWhile]⟩
  rcases w with _ | ⟨x, w⟩
  · exact closed_cons (not_isSpace_of_isPunct hy)
  have hx := hw x List.mem_cons_self
  have hafter : afterPunct (x :: (w ++ y :: t)) = some t := by
    have hrest : (w ++ y :: t).dropWhile isSpace = y :: t := by
      rw [List.dropWhile_append_of_pos fun c hc => hw c (List.mem_cons_of_mem _ hc)]
      exact List.dropWhile_cons_of_neg (not_isSpace_of_isPunct hy)
    unfold afterPunct
    dsimp only
    rw [if_pos hx, hrest]
    exact if_pos hy
  have hle : t.length ≤ (w ++ y :: t).length := by
    rw [List.length_append, List.length_cons]
    omega
  have htake : (x :: (w ++ y :: t)).take ((w ++ y :: t).length + 1 - t.length) = x :: (w ++ [y]) := by
    have hlen : (w ++ y :: t).length + 1 - t.length = (x :: (w ++ [y])).length := by
      simp only [List.length_append, List.length_cons, List.length_nil]
      omega
    have happ : x :: (w ++ y :: t) = x :: (w ++ [y]) ++ t := by simp
    rw [hlen, happ, List.take_left]
  have hrun : closed (x :: (w ++ y :: t)) = _ :=
    Regex.replaceAll_of_reads reads_spaceBeforePunct hafter hle
  rw [List.cons_append, hrun, htake]
  have hlast : (x :: (w ++ [y])).getLast? = some y := by
    rw [← List.cons_append, List.getLast?_append]
    rfl
  rw [hlast]
  rfl

theorem closed_cons_punctuated (hx : isSpace x = true) (hs : Punctuated s) :
    closed (x :: s) = closed s := by
  obtain ⟨y, t, hs, hy⟩ := hs
  rw [closed_of_dropWhile hs hy]
  refine closed_of_dropWhile ?_ hy
  rw [List.dropWhile_cons_of_pos hx, hs]

end


/-! ### What is exposed -/

/-- What goes from in front of a character: citations, and white space if it is punctuation. -/
inductive Loose (x : Char) : List Char → Prop
  | nil : Loose x []
  | marker {m g : List Char} : IsMarker m → Loose x g → Loose x (m ++ g)
  | space {c : Char} {g : List Char} : isPunct x = true → isSpace c = true → Loose x g →
      Loose x (c :: g)

/-- A citation is written in the answer with other citations in it, or with white space before its
points and colons. -/
def Torn (answer : String) : Prop := Interrupted IsMarker Loose answer.toList

section

variable {x : Char} {s g m : List Char}

theorem unmarked_marker (hm : IsMarker m) : unmarked (m ++ s) = unmarked s := by
  rw [strips_marker.word s hm, skip_false]

/-- White space is left of what goes, and only before punctuation. -/
theorem unmarked_loose (hg : Loose x g)
    (hs : Clear IsMarker (x :: s)) : ∃ w, (∀ c ∈ w, isSpace c = true) ∧
      unmarked (g ++ x :: s) = w ++ x :: unmarked s ∧ (w = [] ∨ isPunct x = true) := by
  induction hg with
  | nil => exact ⟨[], List.forall_mem_nil _, strips_marker.kept hs, .inl rfl⟩
  | marker hm _ ih =>
    rw [List.append_assoc, unmarked_marker hm]
    exact ih
  | @space c g hpunct hc _ ih =>
    obtain ⟨w, hw, heq, -⟩ := ih
    refine ⟨c :: w, List.forall_mem_cons.mpr ⟨hc, hw⟩, ?_, .inr hpunct⟩
    rw [List.cons_append, strips_marker.kept (strips_markerSpace.clear_junk hc), heq]
    rfl

theorem dropWhile_of_spaces {w t : List Char} (hw : ∀ c ∈ w, isSpace c = true)
    (hx : ¬ isSpace x = true) : (w ++ x :: t).dropWhile isSpace = x :: t := by
  rw [List.dropWhile_append_of_pos hw]
  exact List.dropWhile_cons_of_neg hx

/-- **Taking the citations out, and the space before punctuation, is an erasure.** -/
theorem erases_closed :
    Erases IsMarker (isSpace · = true) Loose fun s => closed (unmarked s) where
  code := code_marker
  clean := not_isSpace_of_marker
  nil := rfl
  front := by
    intro x s
    rcases word_or_clear IsMarker (x :: s) with ⟨m, t, hm, ht⟩ | hclear
    · refine .inr ⟨m, t, ht, ⟨code_marker.ne_nil hm, m, [], (List.append_nil m).symm, .inr hm,
        List.forall_mem_nil _⟩, ?_, fun y g u _ hg _ _ => .marker hm hg⟩
      rw [ht, unmarked_marker hm]
    · have hkept : unmarked (x :: s) = x :: unmarked s := strips_marker.kept hclear
      rw [hkept]
      by_cases hx : isSpace x = true
      · by_cases hs : Punctuated (unmarked s)
        · refine .inr ⟨[x], s, rfl, ⟨List.cons_ne_nil x [], [], [x], rfl, .inl rfl,
            List.forall_mem_singleton.mpr hx⟩, closed_cons_punctuated hx hs, ?_⟩
          rintro y g u rfl hg hy hu
          obtain ⟨w, hw, heq, -⟩ := unmarked_loose hg hu
          obtain ⟨z, t, hz, hpunct⟩ := hs
          rw [heq, dropWhile_of_spaces hw hy] at hz
          obtain ⟨rfl, -⟩ := List.cons.inj hz
          exact .space hpunct hx hg
        · exact .inl ⟨closed_cons_space hs, hclear⟩
      · exact .inl ⟨closed_cons hx, hclear⟩
  gap_nil _ := .nil
  gap_front := by
    rintro x g (_ | ⟨hm, _⟩ | ⟨_, hc, _⟩)
    · exact .inl rfl
    · exact .inr (.inl ⟨_, _, hm, rfl⟩)
    · exact .inr (.inr ⟨_, _, hc, rfl⟩)
  gap_erased := by
    intro x g s hg hx hs
    obtain ⟨w, hw, heq, hcase⟩ := unmarked_loose hg hs
    have hkept : unmarked (x :: s) = x :: unmarked s := strips_marker.kept hs
    rw [heq, hkept, closed_cons hx]
    rcases hcase with rfl | hpunct
    · exact closed_cons hx
    · exact closed_of_dropWhile (dropWhile_of_spaces hw hx) hpunct

end

end Assistant
