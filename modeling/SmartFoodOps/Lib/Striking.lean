/-
What replacing the matches of a pattern makes of a text.

* `Piece`, `Cut`, `exists_cut` — a text and what is made of it, piece by piece;
* `Bracketed`, `Foreign`, `exists_kept` — when brackets are put in place of the matches, what stands
  outside them stood in the text before, beside what it stands beside now or beside a match;
* `Splits`, `Carries`, `Passes` — patterns that end where a class of characters does, so that
  replacing cannot make a match of what was none;
* `absent_foldl` — after several patterns were replaced in turn, none of them matches.
-/
import SmartFoodOps.Lib.Matching

namespace Regex

variable {r : Regex} {b w a t : List Char} {f : List Char → List Char}

/-! ### What replacing makes of a text -/

/-- A character that stays, or a match that goes. -/
inductive Piece
  | keep (x : Char)
  | strike (m : List Char)

/-- The text before. -/
def source : List Piece → List Char
  | [] => []
  | .keep x :: ps => x :: source ps
  | .strike m :: ps => m ++ source ps

/-- The text after. -/
def target (f : List Char → List Char) : List Piece → List Char
  | [] => []
  | .keep x :: ps => x :: target f ps
  | .strike m :: ps => f m ++ target f ps

/-- Matches go, and there is none where a character stays. -/
def Cut (r : Regex) : List Char → List Piece → Prop
  | _, [] => True
  | b, .keep x :: ps =>
    (∀ u v, x :: source ps = u ++ v → ¬ Matches r b u v) ∧ Cut r (x :: b) ps
  | b, .strike m :: ps => Matches r b m (source ps) ∧ Cut r (m.reverse ++ b) ps

variable {ps qs : List Piece}

@[simp]
theorem source_append : source (ps ++ qs) = source ps ++ source qs := by
  induction ps with
  | nil => rfl
  | cons p ps ih =>
    cases p with
    | keep x => exact congrArg (x :: ·) ih
    | strike m => exact (congrArg (m ++ ·) ih).trans (List.append_assoc _ _ _).symm

@[simp]
theorem target_append : target f (ps ++ qs) = target f ps ++ target f qs := by
  induction ps with
  | nil => rfl
  | cons p ps ih =>
    cases p with
    | keep x => exact congrArg (x :: ·) ih
    | strike m => exact (congrArg (f m ++ ·) ih).trans (List.append_assoc _ _ _).symm

@[simp]
theorem source_keep : source (w.map .keep) = w := by
  induction w with
  | nil => rfl
  | cons x w ih => exact congrArg (x :: ·) ih

theorem Cut.drop (h : Cut r b (ps ++ qs)) : Cut r ((source ps).reverse ++ b) qs := by
  induction ps generalizing b with
  | nil => exact h
  | cons p ps ih =>
    cases p with
    | keep x =>
      rw [source, List.reverse_cons, List.append_assoc]
      exact ih h.2
    | strike m =>
      rw [source, List.reverse_append, List.append_assoc]
      exact ih h.2

/-- **Replacing, piece by piece.** -/
theorem exists_cut (hne : ∀ b w a, Matches r b w a → w ≠ []) :
    ∃ ps, Cut r [] ps ∧ source ps = t ∧ target f ps = replaceAll r f t := by
  have hfrom : ∀ n (b t : List Char), t.length ≤ n →
      ∃ ps, Cut r b ps ∧ source ps = t ∧ target f ps = replaceFrom r f n ⟨b, t⟩ := by
    intro n
    induction n with
    | zero =>
      intro b t ht
      obtain rfl := List.length_eq_zero_iff.mp (Nat.le_zero.mp ht)
      exact ⟨[], trivial, rfl, rfl⟩
    | succ n ih =>
      intro b t ht
      rcases t with _ | ⟨x, t⟩
      · exact ⟨[], trivial, rfl, rfl⟩
      have ht : t.length ≤ n := Nat.le_of_succ_le_succ ht
      rw [replaceFrom_cons]
      rcases hrun : (run r ⟨b, x :: t⟩).head? with _ | e
      · obtain ⟨ps, hcut, rfl, htarget⟩ := ih (x :: b) t ht
        refine ⟨.keep x :: ps, ⟨?_, hcut⟩, rfl, congrArg (x :: ·) htarget⟩
        exact run_eq_nil_iff.mp (List.head?_eq_none_iff.mp hrun)
      · obtain ⟨m, ⟨hm, hb⟩, hmatch⟩ := mem_run_iff.mp (List.mem_of_head? hrun)
        have hpos := List.length_pos_iff.mpr (hne _ _ _ hmatch)
        have hlen := congrArg List.length hm
        rw [List.length_append, List.length_cons] at hlen
        obtain ⟨ps, hcut, hsource, htarget⟩ := ih e.before e.after (by omega)
        dsimp only
        rw [if_pos (by omega)]
        have htake : (x :: t).take (t.length + 1 - e.after.length) = m := by
          rw [hm, show t.length + 1 - e.after.length = m.length by omega]
          exact List.take_left
        refine ⟨.strike m :: ps, ⟨?_, ?_⟩, ?_, ?_⟩
        · rw [hsource]
          exact hmatch
        · rw [← hb]
          exact hcut
        · rw [source, hsource, hm]
        · rw [target, htarget, htake]
  exact hfrom _ _ _ (Nat.le_refl _)

/-! ### Replacing by a text in brackets -/

/-- It begins with the one character and ends with the other. -/
structure Bracketed (o c : Char) (l : List Char) : Prop where
  first : ∃ l', l = o :: l'
  last : ∃ l', l = l' ++ [c]

/-- A text that has neither of the brackets, and is no part of what stands between them. -/
structure Foreign (o c : Char) (l w : List Char) : Prop where
  opening : o ∉ w
  closing : c ∉ w
  other : ∃ x ∈ w, x ∉ l

/-- Not both neighbours are of the class. -/
def Apart (K : Char → Bool) (b a : List Char) : Prop :=
  ¬ (b.head?.any K = true ∧ a.head?.any K = true)

/-- The matches begin and end where not both neighbours are of the class. -/
def Splits (K : Char → Bool) (r : Regex) : Prop :=
  ∀ b m a, Matches r b m a → Apart K b (m ++ a) ∧ Apart K (m.reverse ++ b) a

/-- What stands beside `a`: the same as before, or a bracket where a match ended. -/
def Kept (K : Char → Bool) (c : Char) (b b' a : List Char) : Prop :=
  b.head? = b'.head? ∨ b.head? = some c ∧ Apart K b' a

section

variable {K K' : Char → Bool} {o c : Char} {l b' a pre post : List Char}

theorem Apart.symm (h : Apart K b a) : Apart K a b := fun hab => h hab.symm

theorem Apart.mono (hK : ∀ x, K' x = true → K x = true) (h : Apart K b a) : Apart K' b a := by
  have hany : ∀ l : List Char, l.head?.any K' = true → l.head?.any K = true := by
    intro l hl
    rcases l with _ | ⟨x, l⟩
    · cases hl
    · exact hK x hl
  exact fun hab => h ⟨hany b hab.1, hany a hab.2⟩

theorem Splits.mono (hK : ∀ x, K' x = true → K x = true) (h : Splits K r) : Splits K' r :=
  fun b m a hm => ⟨(h b m a hm).1.mono hK, (h b m a hm).2.mono hK⟩

/-- Beside the class, it is of the class exactly if it was. -/
theorem Kept.any_eq (h : Kept K c b b' a) (hc : ¬ K c = true) (ha : a.head?.any K = true) :
    b'.head?.any K = b.head?.any K := by
  rcases h with h | ⟨h, hapart⟩
  · rw [h]
  · rw [h, Bool.eq_false_iff.mpr fun hb => hapart ⟨hb, ha⟩]
    exact (Bool.eq_false_iff.mpr hc).symm

/-- A border of the class was one. -/
theorem Kept.any_ne (h : Kept K c b b' a) (hc : ¬ K c = true)
    (hne : b.head?.any K ≠ a.head?.any K) : b'.head?.any K ≠ a.head?.any K := by
  by_cases ha : a.head?.any K = true
  · rw [h.any_eq hc ha]
    exact hne
  · rcases h with h | ⟨h, -⟩
    · rw [← h]
      exact hne
    · refine absurd ?_ hne
      rw [h, Bool.eq_false_iff.mpr ha]
      exact Bool.eq_false_iff.mpr hc

/-- A text without the bracket that the target begins with stayed. -/
theorem Bracketed.front (hl : Bracketed o c l) (ho : o ∉ w)
    (h : target (fun _ => l) ps = w ++ post) :
    ∃ qs, ps = w.map .keep ++ qs ∧ target (fun _ => l) qs = post := by
  induction w generalizing ps with
  | nil => exact ⟨ps, rfl, h⟩
  | cons y w ih =>
    have hy : o ≠ y := fun hoy => ho (hoy ▸ List.mem_cons_self)
    have how : o ∉ w := fun how => ho (List.mem_cons_of_mem _ how)
    rcases ps with _ | ⟨x | m, ps⟩
    · cases h
    · obtain ⟨rfl, htail⟩ := List.cons.inj h
      obtain ⟨qs, rfl, hqs⟩ := ih how htail
      exact ⟨qs, rfl, hqs⟩
    · obtain ⟨l', rfl⟩ := hl.first
      exact absurd (List.cons.inj h).1 hy

/-- **A foreign text in the target stayed**, as one piece. -/
theorem Bracketed.split (hl : Bracketed o c l) (hw : Foreign o c l w)
    (h : target (fun _ => l) ps = pre ++ w ++ post) :
    ∃ ps₁ ps₂, ps = ps₁ ++ (w.map .keep ++ ps₂) ∧ target (fun _ => l) ps₁ = pre ∧
      target (fun _ => l) ps₂ = post := by
  induction ps generalizing pre with
  | nil =>
    obtain ⟨x, hx, -⟩ := hw.other
    obtain ⟨hnil, -⟩ := List.append_eq_nil_iff.mp h.symm
    rw [(List.append_eq_nil_iff.mp hnil).2] at hx
    exact absurd hx List.not_mem_nil
  | cons p ps ih =>
    rcases pre with _ | ⟨y, pre⟩
    · obtain ⟨qs, hqs, hpost⟩ := hl.front hw.opening h
      exact ⟨[], qs, hqs, rfl, hpost⟩
    cases p with
    | keep x =>
      obtain ⟨rfl, htail⟩ := List.cons.inj h
      obtain ⟨ps₁, ps₂, rfl, rfl, hpost⟩ := ih htail
      exact ⟨.keep x :: ps₁, ps₂, rfl, rfl, hpost⟩
    | strike m =>
      have h : l ++ target (fun _ => l) ps = (y :: pre) ++ (w ++ post) := by
        rw [← List.append_assoc]
        exact h
      rcases List.append_eq_append_iff.mp h with ⟨pre', hpre, hrest⟩ | ⟨u, hu, hrest⟩
      · obtain ⟨ps₁, ps₂, rfl, rfl, hpost⟩ := ih (hrest.trans (List.append_assoc _ _ _).symm)
        exact ⟨.strike m :: ps₁, ps₂, rfl, hpre.symm, hpost⟩
      · rcases List.eq_nil_or_concat u with rfl | ⟨u, z, rfl⟩
        · -- the text begins where the bracket ends
          obtain ⟨qs, rfl, hpost⟩ := hl.front hw.opening hrest.symm
          exact ⟨[.strike m], qs, rfl, by rw [hu, List.append_nil]; exact List.append_nil _, hpost⟩
        exfalso
        obtain ⟨l', hl'⟩ := hl.last
        have hz : z = c := by
          rw [List.concat_eq_append, ← List.append_assoc] at hu
          have hlast := congrArg List.getLast? (hu.symm.trans hl')
          rw [List.getLast?_concat, List.getLast?_concat] at hlast
          exact Option.some.inj hlast
        subst hz
        rcases List.append_eq_append_iff.mp hrest with ⟨v, hv, -⟩ | ⟨v, hv, -⟩
        · obtain ⟨x, hx, hxl⟩ := hw.other
          refine hxl ?_
          rw [hu]
          refine List.mem_append_right _ ?_
          rw [hv]
          exact List.mem_append_left _ hx
        · refine hw.closing ?_
          rw [hv]
          exact List.mem_append_left _ (by simp)

theorem Cut.kept_right (hl : Bracketed o c l) (hr : Splits K r) (h : Cut r b ps) :
    Kept K o (target (fun _ => l) ps) (source ps) b := by
  rcases ps with _ | ⟨x | m, ps⟩
  · exact .inl rfl
  · exact .inl rfl
  · obtain ⟨l', rfl⟩ := hl.first
    exact .inr ⟨rfl, (hr _ _ _ h.1).1.symm⟩

theorem Cut.kept_left (hl : Bracketed o c l) (hr : Splits K r) (h : Cut r [] (ps ++ qs)) :
    Kept K c (target (fun _ => l) ps).reverse (source ps).reverse (source qs) := by
  rcases List.eq_nil_or_concat ps with rfl | ⟨ps, x | m, rfl⟩
  · exact .inl rfl
  · refine .inl ?_
    simp [source, target]
  · rw [List.concat_eq_append] at h ⊢
    rw [List.append_assoc] at h
    obtain ⟨l', rfl⟩ := hl.last
    refine .inr ⟨by simp [target], ?_⟩
    have hapart := (hr _ _ _ h.drop.1).2
    rw [List.append_nil] at hapart
    simpa [source] using hapart

/-- **A foreign text that stands in a text after the replacing** stood there before, with the same
neighbours or beside a match, and nothing matches inside it. -/
theorem exists_kept (hne : ∀ b w a, Matches r b w a → w ≠ []) (hr : Splits K r)
    (hl : Bracketed o c l) (hw : Foreign o c l w)
    (h : replaceAll r (fun _ => l) t = pre ++ w ++ post) :
    ∃ pre' post', t = pre' ++ w ++ post' ∧ Kept K c pre.reverse pre'.reverse (w ++ post') ∧
      Kept K o post post' (w.reverse ++ pre'.reverse) ∧
      ∀ u x v, w = u ++ x :: v → ∀ m a, x :: v ++ post' = m ++ a →
        ¬ Matches r (u.reverse ++ pre'.reverse) m a := by
  obtain ⟨ps, hcut, rfl, htarget⟩ := exists_cut (f := fun _ => l) (t := t) hne
  obtain ⟨ps₁, ps₂, rfl, rfl, rfl⟩ := hl.split hw (htarget.trans h)
  refine ⟨source ps₁, source ps₂, by simp, ?_, ?_, ?_⟩
  · have hleft := hcut.kept_left hl hr
    rwa [source_append, source_keep] at hleft
  · rw [← List.append_assoc] at hcut
    have hright := hcut.drop.kept_right hl hr
    rwa [source_append, source_keep, List.append_nil, List.reverse_append] at hright
  · rintro u x v rfl m a hm
    have hdrop := hcut.drop
    rw [List.map_append, List.append_assoc, List.append_nil] at hdrop
    have hx := hdrop.drop.1 m a
    rw [source_keep] at hx
    refine hx ?_
    rw [← hm]
    show x :: source (v.map .keep ++ ps₂) = _
    rw [source_append, source_keep]
    rfl

end

/-- A match that stands beside brackets was there before, up to what stands at its ends. -/
def Carries (K : Char → Bool) (o c : Char) (r : Regex) : Prop :=
  ∀ b w a b' a', Matches r b w a → Kept K c b b' (w ++ a') → Kept K o a a' (w.reverse ++ b') →
    ∃ u m v, w = u ++ m ++ v ∧ Matches r (u.reverse ++ b') m (v ++ a')

/-- A pattern `q` that does not come back when `l` replaces the matches of `r`. -/
structure Passes (o c : Char) (l : List Char) (q r : Regex) : Prop where
  foreign : ∀ b w a, Matches q b w a → Foreign o c l w
  exists_class : ∃ K, Carries K o c q ∧ Splits K r

section

variable {q : Regex} {o c : Char} {l : List Char}

theorem Foreign.ne_nil (h : Foreign o c l w) : w ≠ [] := by
  obtain ⟨x, hx, -⟩ := h.other
  exact List.ne_nil_of_mem hx

/-- What did not match does not match when other matches are gone. -/
theorem Passes.absent (h : Passes o c l q r) (hl : Bracketed o c l)
    (hne : ∀ b w a, Matches r b w a → w ≠ []) (ht : Absent q t) :
    Absent q (replaceAll r (fun _ => l) t) := by
  obtain ⟨K, hcarry, hsplit⟩ := h.exists_class
  intro pre w post heq hw
  obtain ⟨pre', post', rfl, hleft, hright, -⟩ := exists_kept hne hsplit hl (h.foreign _ _ _ hw) heq
  obtain ⟨u, m, v, rfl, hm⟩ := hcarry _ _ _ _ _ hw hleft hright
  refine ht (pre' ++ u) m (v ++ post') (by simp) ?_
  rw [List.reverse_append]
  exact hm

/-- Nor does what has been replaced. -/
theorem Passes.absent_self (h : Passes o c l r r) (hl : Bracketed o c l) :
    Absent r (replaceAll r (fun _ => l) t) := by
  obtain ⟨K, hcarry, hsplit⟩ := h.exists_class
  have hne : ∀ b w a, Matches r b w a → w ≠ [] := fun b w a hw => (h.foreign b w a hw).ne_nil
  intro pre w post heq hw
  obtain ⟨pre', post', rfl, hleft, hright, hinside⟩ :=
    exists_kept hne hsplit hl (h.foreign _ _ _ hw) heq
  obtain ⟨u, m, v, rfl, hm⟩ := hcarry _ _ _ _ _ hw hleft hright
  rcases m with _ | ⟨x, m⟩
  · exact hne _ _ _ hm rfl
  refine hinside u x (m ++ v) (by simp) (x :: m) (v ++ post') (by simp) hm

/-- **Several patterns, replaced in turn**: none of them matches afterwards. -/
theorem absent_foldl {ι : Type*} {pattern : ι → Regex} {text : ι → List Char} {is done : List ι}
    (hl : ∀ i ∈ is, Bracketed o c (text i))
    (hself : ∀ i ∈ is, Passes o c (text i) (pattern i) (pattern i))
    (hlater : is.Pairwise fun i j => Passes o c (text j) (pattern i) (pattern j))
    (hdone : ∀ i ∈ done, Absent (pattern i) t ∧ ∀ j ∈ is, Passes o c (text j) (pattern i) (pattern j)) :
    ∀ i ∈ done ++ is, Absent (pattern i)
      (is.foldl (fun s j => replaceAll (pattern j) (fun _ => text j) s) t) := by
  induction is generalizing done t with
  | nil =>
    intro i hi
    rw [List.append_nil] at hi
    exact (hdone i hi).1
  | cons j is ih =>
    obtain ⟨hlj, hl⟩ := List.forall_mem_cons.mp hl
    obtain ⟨hselfj, hself⟩ := List.forall_mem_cons.mp hself
    obtain ⟨hlaterj, hlater⟩ := List.pairwise_cons.mp hlater
    have hne : ∀ b w a, Matches (pattern j) b w a → w ≠ [] :=
      fun b w a hw => (hselfj.foreign b w a hw).ne_nil
    have hstep : ∀ i ∈ done ++ [j],
        Absent (pattern i) (replaceAll (pattern j) (fun _ => text j) t) ∧
          ∀ k ∈ is, Passes o c (text k) (pattern i) (pattern k) := by
      refine List.forall_mem_append.mpr ⟨fun i hi => ?_, List.forall_mem_singleton.mpr ?_⟩
      · obtain ⟨habsent, hpass⟩ := hdone i hi
        obtain ⟨hpassj, hpass⟩ := List.forall_mem_cons.mp hpass
        exact ⟨hpassj.absent hlj hne habsent, hpass⟩
      · exact ⟨hselfj.absent_self hlj, hlaterj⟩
    rw [List.append_cons]
    exact ih hl hself hlater hstep

end

end Regex
