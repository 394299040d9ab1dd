/-
Erasing the words of a code from a text that arrives in pieces.

Each word goes, with one junk character behind it if there is one.  Of what has arrived, the end
that can still become a word is held back and read again together with the next piece.

* `Strips` — the erasure, by its equations; it is one (`Strips.erases`);
* `Keeps` — what is held back: at least the beginning of a word;
* `feed` — the pieces one after the other;
* `Strips.cut` — what the erasure does where a text is cut in two;
* `Strips.thins_feed` — whatever the pieces, the stream is the erased text, with more junk in it.
-/
import SmartFoodOps.Lib.Erasure
import SmartFoodOps.Lib.Spacing

open Erasure Spacing

namespace Stripping

variable {α : Type*}

/-- One junk character goes. -/
def skip (junk : α → Bool) : List α → List α
  | [] => []
  | x :: s => if junk x = true then s else x :: s

structure Strips (L : List α → Prop) (junk : α → Bool) (del : List α → List α) : Prop where
  code : Code L
  /-- No letter is junk. -/
  clean : ∀ {F x}, L F → x ∈ F → ¬ junk x = true
  nil : del [] = []
  word : ∀ {F} s, L F → del (F ++ s) = del (skip junk s)
  kept : ∀ {x s}, Clear L (x :: s) → del (x :: s) = x :: del s

/-- What goes at one place. -/
inductive Skipped (L : List α → Prop) (junk : α → Bool) : List α → Prop
  | nil : Skipped L junk []
  | word {F g : List α} : L F → Skipped L junk g → Skipped L junk (F ++ g)
  | spaced {F g : List α} {y : α} : L F → junk y = true → Skipped L junk g →
      Skipped L junk (F ++ y :: g)

variable {L : List α → Prop} {junk : α → Bool} {del : List α → List α}
  {s t u v g p q out held : List α} {x : α}

theorem skip_cons (hx : ¬ junk x = true) : skip junk (x :: s) = x :: s := if_neg hx

theorem skip_cons_junk (hx : junk x = true) : skip junk (x :: s) = s := if_pos hx

theorem skip_false : skip (fun _ => false) s = s := by
  rcases s with _ | ⟨x, s⟩
  · rfl
  · exact skip_cons (by simp)

theorem skip_append (hs : s ≠ []) : skip junk (s ++ t) = skip junk s ++ t := by
  rcases s with _ | ⟨x, s⟩
  · exact absurd rfl hs
  · by_cases hx : junk x = true
    · rw [skip_cons_junk hx, List.cons_append, skip_cons_junk hx]
    · rw [skip_cons hx, List.cons_append, skip_cons hx]

theorem length_skip : (skip junk s).length ≤ s.length := by
  rcases s with _ | ⟨x, s⟩
  · exact Nat.le_refl _
  · by_cases hx : junk x = true
    · rw [skip_cons_junk hx]
      exact Nat.le_succ _
    · rw [skip_cons hx]

/-- A word stands at the front, or none does. -/
theorem word_or_clear (L : List α → Prop) (s : List α) :
    (∃ F t, L F ∧ s = F ++ t) ∨ Clear L s := by
  by_cases h : Clear L s
  · exact .inr h
  · unfold Clear at h
    push Not at h
    obtain ⟨F, hF, t, rfl⟩ := h
    exact .inl ⟨F, t, hF, rfl⟩

theorem Strips.toClean (h : Strips L junk del) : Clean L junk := ⟨h.code.ne_nil, h.clean⟩

section

variable (h : Strips L junk del)

include h

/-- No word begins with junk. -/
theorem Strips.clear_junk (hx : junk x = true) : Clear L (x :: s) := by
  intro F hF hp
  rcases F with _ | ⟨y, F⟩
  · exact h.code.ne_nil hF rfl
  · obtain ⟨rfl, -⟩ := List.cons_prefix_cons.mp hp
    exact h.clean hF List.mem_cons_self hx

/-- What goes at one place begins with a word, if it is not empty. -/
theorem Strips.skip_skipped (hg : Skipped L junk g) (hx : ¬ junk x = true) :
    skip junk (g ++ x :: s) = g ++ x :: s := by
  have hword : ∀ {F t : List α}, L F → skip junk (F ++ t) = F ++ t := by
    intro F t hF
    rcases F with _ | ⟨y, F⟩
    · exact absurd rfl (h.code.ne_nil hF)
    · exact skip_cons (h.clean hF List.mem_cons_self)
  rcases hg with _ | ⟨hF, _⟩ | ⟨hF, _, _⟩
  · exact skip_cons hx
  · rw [List.append_assoc]
    exact hword hF
  · rw [List.append_assoc]
    exact hword hF

/-- **Stripping is an erasure.** -/
theorem Strips.erases : Erases L (junk · = true) (fun _ g => Skipped L junk g) del where
  code := h.code
  clean := h.clean
  nil := h.nil
  front := by
    intro x s
    rcases word_or_clear L (x :: s) with ⟨F, t, hF, ht⟩ | hclear
    · right
      have hdel := h.word t hF
      rw [← ht] at hdel
      by_cases hjunk : ∃ y t', t = y :: t' ∧ junk y = true
      · obtain ⟨y, t, rfl, hy⟩ := hjunk
        rw [skip_cons_junk hy] at hdel
        have hne : F ++ [y] ≠ [] := List.append_ne_nil_of_right_ne_nil F (List.cons_ne_nil y [])
        refine ⟨F ++ [y], t, by rw [ht, List.append_assoc]; rfl, ⟨hne, F, [y], rfl, .inr hF, ?_⟩,
          hdel, fun z g u _ hg _ _ => ?_⟩
        · exact List.forall_mem_singleton.mpr hy
        · rw [List.append_assoc]
          exact .spaced hF hy hg
      · have hskip : skip junk t = t := by
          rcases t with _ | ⟨y, t⟩
          · rfl
          · exact skip_cons fun hy => hjunk ⟨y, t, rfl, hy⟩
        rw [hskip] at hdel
        exact ⟨F, t, ht, ⟨h.code.ne_nil hF, F, [], (List.append_nil F).symm, .inr hF,
          List.forall_mem_nil _⟩, hdel, fun z g u _ hg _ _ => .word hF hg⟩
    · exact .inl ⟨h.kept hclear, hclear⟩
  gap_nil _ := .nil
  gap_front := by
    rintro x g (_ | ⟨hF, _⟩ | ⟨hF, _, _⟩)
    · exact .inl rfl
    · exact .inr (.inl ⟨_, _, hF, rfl⟩)
    · exact .inr (.inl ⟨_, _, hF, rfl⟩)
  gap_erased := by
    intro x g s hg hx _
    induction hg with
    | nil => rfl
    | word hF hg ih => rw [List.append_assoc, h.word _ hF, h.skip_skipped hg hx, ih]
    | spaced hF hy _ ih => rw [List.append_assoc, h.word _ hF, List.cons_append,
        skip_cons_junk hy, ih]

/-- A text without words stays. -/
theorem Strips.del_eq_self (hs : ¬ Occurs L s) : del s = s := by
  induction s with
  | nil => exact h.nil
  | cons x s ih =>
    rw [h.kept fun F hF hp => hs ⟨F, hF, hp.isInfix⟩,
      ih fun hin => hs (hin.of_infix (List.suffix_cons x s).isInfix)]

/-- The beginning of a word has no word in it. -/
theorem Strips.not_occurs_of_word (hw : L (p ++ q)) (hq : q ≠ []) : ¬ Occurs L p := by
  rintro ⟨F, hF, hin⟩
  have heq := h.code.whole hw hF (hin.trans (List.prefix_append p q).isInfix)
  have hle := hin.length_le
  have hpos := List.length_pos_iff.mpr hq
  rw [heq, List.length_append] at hle
  omega

/-- The end of a word stays. -/
theorem Strips.del_suffix {F : List α} (hF : L F) (hq : q <:+ F) (hne : q ≠ F) :
    del (q ++ v) = q ++ del v := by
  induction q with
  | nil => rfl
  | cons x q ih =>
    have hlen : (x :: q).length < F.length :=
      Nat.lt_of_le_of_ne hq.length_le fun heq => hne (hq.eq_of_length heq)
    have hclear : Clear L (x :: (q ++ v)) := by
      intro G hG hp
      rcases List.prefix_or_prefix_of_prefix hp (List.prefix_append (x :: q) v) with hp | hp
      · have heq := h.code.whole hF hG (hp.isInfix.trans hq.isInfix)
        have hle := hp.length_le
        rw [heq] at hle
        omega
      · exact hne (h.code.apart hF hG (List.cons_ne_nil x q) hq hp)
    have hq' : q <:+ F := (List.suffix_cons x q).trans hq
    have hne' : q ≠ F := by
      rintro rfl
      exact absurd hlen (Nat.not_lt.mpr (Nat.le_succ _))
    rw [List.cons_append, h.kept hclear, ih hq' hne', List.cons_append]

/-- The cut is inside a word: what is left of the text before it ends with the word's beginning. -/
structure Straddles (L : List α → Prop) (del : List α → List α) (u v a p q : List α) : Prop where
  begun : p ≠ []
  unfinished : q ≠ []
  word : L (p ++ q)
  rest : q <+: v
  left : del u = a ++ p
  whole : del (u ++ v) = a ++ del (p ++ v)

/-- A word ends at the cut, and takes a junk character with it. -/
structure Swallows (L : List α → Prop) (junk : α → Bool) (del : List α → List α) (u v : List α)
    (y : α) (v' : List α) : Prop where
  occurs : Occurs L u
  rest : v = y :: v'
  junk : junk y = true
  whole : del (u ++ v) = del u ++ del v'

/-- **Where a text is cut.** -/
theorem Strips.cut (u v : List α) : (∃ a p q, Straddles L del u v a p q) ∨
    (∃ y v', Swallows L junk del u v y v') ∨ del (u ++ v) = del u ++ del v := by
  induction hn : u.length using Nat.strong_induction_on generalizing u with
  | _ n ih =>
    subst hn
    rcases u with _ | ⟨x, u⟩
    · exact .inr (.inr (by rw [h.nil]; rfl))
    rcases word_or_clear L (x :: u) with ⟨F, t, hF, ht⟩ | hclear
    · -- a word stands before the cut
      have hlen : (skip junk t).length < (x :: u).length := by
        have hpos := List.length_pos_iff.mpr (h.code.ne_nil hF)
        have hle : (skip junk t).length ≤ t.length := length_skip
        rw [ht, List.length_append]
        omega
      have hoccurs : Occurs L (x :: u) := ⟨F, hF, ht ▸ (List.prefix_append F t).isInfix⟩
      have hu : del (x :: u) = del (skip junk t) := by rw [ht, h.word t hF]
      have huv : del (x :: u ++ v) = del (skip junk (t ++ v)) := by
        rw [ht, List.append_assoc, h.word (t ++ v) hF]
      rcases t with _ | ⟨z, t⟩
      · have hnil : del (skip junk []) = [] := h.nil
        rcases v with _ | ⟨y, v⟩
        · exact .inr (.inr (by rw [h.nil, List.append_nil, List.append_nil]))
        · rw [hnil] at hu
          by_cases hy : junk y = true
          · rw [List.nil_append, skip_cons_junk hy] at huv
            exact .inr (.inl ⟨y, v, hoccurs, rfl, hy, by rw [hu, huv, List.nil_append]⟩)
          · rw [List.nil_append, skip_cons hy] at huv
            exact .inr (.inr (by rw [hu, huv, List.nil_append]))
      · rw [skip_append (List.cons_ne_nil z t)] at huv
        rcases ih _ hlen _ rfl with ⟨a, p, q, hs⟩ | ⟨y, v', hs⟩ | happ
        · exact .inl ⟨a, p, q, hs.begun, hs.unfinished, hs.word, hs.rest, hu.trans hs.left,
            huv.trans hs.whole⟩
        · exact .inr (.inl ⟨y, v', hoccurs, hs.rest, hs.junk, by rw [hu, huv, hs.whole]⟩)
        · exact .inr (.inr (by rw [hu, huv, happ]))
    rcases word_or_clear L (x :: u ++ v) with ⟨F, t, hF, ht⟩ | hclear'
    · -- a word begins before the cut and ends behind it
      rcases List.append_eq_append_iff.mp ht with ⟨q, rfl, rfl⟩ | ⟨t', hu, -⟩
      · have hq : q ≠ [] := by
          rintro rfl
          rw [List.append_nil] at hF
          exact hclear _ hF (List.prefix_refl _)
        have hstays := h.del_eq_self (h.not_occurs_of_word hF hq)
        exact .inl ⟨[], x :: u, q, List.cons_ne_nil x u, hq, hF, List.prefix_append q t, hstays, rfl⟩
      · exact absurd ⟨t', hu.symm⟩ (hclear F hF)
    · have hu : del (x :: u) = x :: del u := h.kept hclear
      have huv : del (x :: u ++ v) = x :: del (u ++ v) := h.kept hclear'
      rcases ih _ (Nat.lt_succ_self _) u rfl with ⟨a, p, q, hs⟩ | ⟨y, v', hs⟩ | happ
      · refine .inl ⟨x :: a, p, q, hs.begun, hs.unfinished, hs.word, hs.rest, ?_, ?_⟩
        · rw [hu, hs.left, List.cons_append]
        · rw [huv, hs.whole, List.cons_append]
      · refine .inr (.inl ⟨y, v', ?_, hs.rest, hs.junk, ?_⟩)
        · exact hs.occurs.of_infix (List.suffix_cons x u).isInfix
        · rw [hu, huv, hs.whole, List.cons_append]
      · exact .inr (.inr (by rw [hu, huv, happ, List.cons_append]))

end

/-! ### Pieces -/

/-- What is let through, and what is held back: at least a word that has begun at the end. -/
structure Keeps (L : List α → Prop) (hold : List α → List α × List α) : Prop where
  append : ∀ s, (hold s).1 ++ (hold s).2 = s
  held : ∀ {s a p q}, s = a ++ p → p ≠ [] → q ≠ [] → L (p ++ q) → (hold s).2 = p

/-- The pieces one after the other: what has been let through, and what is held at the end. -/
def feed (del : List α → List α) (hold : List α → List α × List α) :
    List α → List (List α) → List α × List α
  | held, [] => ([], held)
  | held, c :: cs =>
    let r := feed del hold (hold (del (held ++ c))).2 cs
    ((hold (del (held ++ c))).1 ++ r.1, r.2)

section

variable (h : Strips L junk del) {hold : List α → List α × List α}

include h

/-- Erasing the two parts of a text apart leaves more junk at most. -/
theorem Strips.thins_append {u v : List α} (hc : (∃ y v', Swallows L junk del u v y v') ∨
    del (u ++ v) = del u ++ del v) : Thins junk (del u ++ del v) (del (u ++ v)) := by
  rcases hc with ⟨y, v', hs⟩ | happ
  · rw [hs.whole, hs.rest, h.kept (h.clear_junk hs.junk)]
    exact .append_left _ (.drop hs.junk (.refl _))
  · rw [happ]
    exact .refl _

/-- **What is held back is read again**, together with the rest. -/
theorem Strips.resume (hk : Keeps L hold) (u v : List α) (hexp : ¬ Occurs L (del (u ++ v))) :
    ¬ Occurs L (hold (del u)).2 ∧
      Thins junk ((hold (del u)).1 ++ del ((hold (del u)).2 ++ v)) (del (u ++ v)) := by
  have hsplit := hk.append (del u)
  rcases h.cut u v with ⟨a, p, q, hs⟩ | hrest
  · -- the word that has begun is what is held back
    have hheld : (hold (del u)).2 = p := hk.held hs.left hs.begun hs.unfinished hs.word
    have hout : (hold (del u)).1 = a := by
      rw [hheld] at hsplit
      exact List.append_cancel_right (hsplit.trans hs.left)
    rw [hheld, hout, hs.whole]
    exact ⟨h.not_occurs_of_word hs.word hs.unfinished, .refl _⟩
  · rcases hr : hold (del u) with ⟨out, held⟩
    have hsplit : out ++ held = del u := by
      rw [hr] at hsplit
      exact hsplit
    have hthins := h.thins_append hrest
    have hnone : ¬ Occurs L (del u ++ del v) := fun hs => hexp (hthins.occurs h.toClean hs)
    have hheld : ¬ Occurs L held := by
      refine fun hs => hnone (hs.of_infix ?_)
      rw [← hsplit]
      exact (List.suffix_append out held).isInfix.trans (List.prefix_append _ _).isInfix
    have hself := h.del_eq_self hheld
    refine ⟨hheld, ?_⟩
    -- nothing that is held becomes a word, as it would have been exposed
    have happ : del (held ++ v) = held ++ del v := by
      rcases h.cut held v with ⟨a, p, q, hs⟩ | ⟨y, v', hs⟩ | happ
      · exfalso
        obtain ⟨v', rfl⟩ := hs.rest
        have hq : q ≠ p ++ q := fun heq => hs.begun (List.append_left_eq_self.mp heq.symm)
        refine hnone ⟨p ++ q, hs.word, out ++ a, del v', ?_⟩
        rw [← hsplit, ← hself, hs.left, h.del_suffix hs.word (List.suffix_append p q) hq]
        simp only [List.append_assoc]
      · exact absurd hs.occurs hheld
      · rw [happ, hself]
    rw [happ, ← List.append_assoc, hsplit]
    exact hthins

/-- **Whatever the pieces**, the stream is the erased text, with more junk in it. -/
theorem Strips.thins_feed (hk : Keeps L hold) (cs : List (List α)) (held : List α)
    (hheld : ¬ Occurs L held) (hexp : ¬ Occurs L (del (held ++ cs.flatten))) :
    Thins junk ((feed del hold held cs).1 ++ (feed del hold held cs).2)
      (del (held ++ cs.flatten)) := by
  induction cs generalizing held with
  | nil =>
    rw [List.flatten_nil, List.append_nil, h.del_eq_self hheld]
    exact .refl _
  | cons c cs ih =>
    rw [List.flatten_cons, ← List.append_assoc] at hexp ⊢
    obtain ⟨hnext, hthins⟩ := h.resume hk (held ++ c) cs.flatten hexp
    have hrest := ih _ hnext fun hs =>
      hexp (hthins.occurs h.toClean (hs.of_infix (List.suffix_append _ _).isInfix))
    show Thins junk ((hold (del (held ++ c))).1 ++ _ ++ _) _
    rw [List.append_assoc]
    exact (hrest.append_left _).trans hthins

end

/-! ### With the junk, and without -/

/-- Up to junk, it does not matter whether some goes with a word. -/
theorem Strips.solid_eq {del' : List α → List α} (h : Strips L junk del)
    (h' : Strips L (fun _ => false) del') : solid junk (del s) = solid junk (del' s) := by
  induction hn : s.length using Nat.strong_induction_on generalizing s with
  | _ n ih =>
    subst hn
    rcases s with _ | ⟨x, s⟩
    · rw [h.nil, h'.nil]
    rcases word_or_clear L (x :: s) with ⟨F, t, hF, ht⟩ | hclear
    · have hlen : t.length < (x :: s).length := by
        have hpos := List.length_pos_iff.mpr (h.code.ne_nil hF)
        rw [ht, List.length_append]
        omega
      rw [ht, h.word t hF, h'.word t hF, skip_false]
      rcases t with _ | ⟨y, t⟩
      · rw [h'.nil]
        exact congrArg (solid junk) h.nil
      by_cases hy : junk y = true
      · rw [skip_cons_junk hy, h'.kept (h.clear_junk hy), solid_cons_junk hy]
        exact ih _ ((Nat.lt_succ_self _).trans hlen) rfl
      · rw [skip_cons hy]
        exact ih _ hlen rfl
    · rw [h.kept hclear, h'.kept hclear]
      by_cases hx : junk x = true
      · rw [solid_cons_junk hx, solid_cons_junk hx]
        exact ih _ (Nat.lt_succ_self _) rfl
      · rw [solid_cons hx, solid_cons hx, ih _ (Nat.lt_succ_self _) rfl]

end Stripping
