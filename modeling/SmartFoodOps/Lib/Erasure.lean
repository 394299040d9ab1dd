/-
Erasing words from a text.

One pass over a text leaves out the words of a code, and characters that count as junk.
What stood on both sides of a gap stands side by side afterwards, so a word of the code can
appear that was not there before: exactly if it was written with gaps.

* `Code` — words that do not overlap, and none of which stands inside another;
* `Spelled` — a text spells a word, with gaps before its letters;
* `Interrupted` — a word stands in the text, but with a gap in it;
* `Erases` — what an erasure of this kind does at the front of a text;
* `Erases.interrupted_of_infix`, `Erases.infix_of_interrupted` — a word is exposed if and only
  if it was interrupted.
-/
import Mathlib.Data.List.Infix

namespace Erasure

variable {α : Type*}

/-! ### Words and gaps -/

/-- No word begins inside a word. -/
structure Code (L : List α → Prop) : Prop where
  ne_nil : ∀ {F}, L F → F ≠ []
  /-- What ends one word does not begin another, unless it is the whole of it. -/
  apart : ∀ {F G q}, L F → L G → q ≠ [] → q <:+ F → q <+: G → q = F
  whole : ∀ {F G}, L F → L G → G <:+: F → G = F

/-- The text spells the word: its letters, each after a gap that it allows. -/
inductive Spelled (gap : α → List α → Prop) : List α → List α → Prop
  | nil : Spelled gap [] []
  | letter {x : α} {g t w : List α} :
      gap x g → Spelled gap t w → Spelled gap (g ++ x :: t) (x :: w)

/-- A word is spelled somewhere in the text, and some gap in it is not empty. -/
def Interrupted (L : List α → Prop) (gap : α → List α → Prop) (s : List α) : Prop :=
  ∃ pre x t post w, s = pre ++ x :: (t ++ post) ∧ Spelled gap t w ∧ L (x :: w) ∧ t ≠ w

/-- No word stands at the front. -/
def Clear (L : List α → Prop) (s : List α) : Prop := ∀ F, L F → ¬ F <+: s

/-- What is erased at once: a word with junk behind it, or only junk. -/
def Piece (L : List α → Prop) (junk : α → Prop) (c : List α) : Prop :=
  c ≠ [] ∧ ∃ F j, c = F ++ j ∧ (F = [] ∨ L F) ∧ ∀ y ∈ j, junk y

/-- An erasure, by what it does at the front of a text. -/
structure Erases (L : List α → Prop) (junk : α → Prop) (gap : α → List α → Prop)
    (del : List α → List α) : Prop where
  code : Code L
  /-- No letter is junk. -/
  clean : ∀ {F x}, L F → x ∈ F → ¬ junk x
  nil : del [] = []
  /-- The first character stays, or a piece goes, which makes the gap before the next letter
  longer. -/
  front : ∀ x s, del (x :: s) = x :: del s ∧ Clear L (x :: s) ∨
    ∃ c rest, x :: s = c ++ rest ∧ Piece L junk c ∧ del (x :: s) = del rest ∧
      ∀ y g u, rest = g ++ y :: u → gap y g → ¬ junk y → Clear L (y :: u) → gap y (c ++ g)
  gap_nil : ∀ x, gap x []
  gap_front : ∀ {x g}, gap x g → g = [] ∨ (∃ F rest, L F ∧ g = F ++ rest) ∨
    ∃ j rest, junk j ∧ g = j :: rest
  gap_erased : ∀ {x g s}, gap x g → ¬ junk x → Clear L (x :: s) → del (g ++ x :: s) = del (x :: s)

variable {L : List α → Prop} {junk : α → Prop} {gap : α → List α → Prop}
  {del : List α → List α} {s t u w post : List α} {x : α}

theorem Interrupted.append_left (pre : List α) (h : Interrupted L gap s) :
    Interrupted L gap (pre ++ s) := by
  obtain ⟨pre', x, t, post, w, rfl, hw⟩ := h
  exact ⟨pre ++ pre', x, t, post, w, (List.append_assoc _ _ _).symm, hw⟩

theorem Piece.length_lt {c rest : List α} (h : Piece L junk c) (hs : s = c ++ rest) :
    rest.length < s.length := by
  have hpos := List.length_pos_iff.mpr h.1
  rw [hs, List.length_append]
  omega

section

variable (h : Erases L junk gap del)

include h

/-- What is not junk stays, unless a word begins with it. -/
theorem Erases.kept (hx : ¬ junk x) (hs : Clear L (x :: s)) : del (x :: s) = x :: del s := by
  rcases h.front x s with ⟨hdel, -⟩ | ⟨c, rest, hc, ⟨hne, F, j, rfl, hF, hj⟩, -⟩
  · exact hdel
  · exfalso
    rcases hF with rfl | hF
    · rcases j with _ | ⟨y, j⟩
      · exact hne rfl
      · obtain rfl : x = y := (List.cons.inj hc).1
        exact hx (hj x List.mem_cons_self)
    · refine hs F hF ⟨j ++ rest, ?_⟩
      rw [hc, List.append_assoc]

/-! ### From the erased text to the text -/

/-- A word that the erased text begins with was spelled there. -/
theorem Erases.spelled_of_prefix {y : α} (hw : ∀ z ∈ y :: w, ¬ junk z)
    (hp : y :: w <+: del s) : ∃ g u, s = g ++ y :: u ∧ gap y g ∧ Clear L (y :: u) ∧
      ∃ t post, u = t ++ post ∧ Spelled gap t w := by
  induction hn : s.length using Nat.strong_induction_on generalizing s y w with
  | _ n ih =>
    subst hn
    rcases s with _ | ⟨x, s⟩
    · rw [h.nil] at hp
      exact absurd (List.prefix_nil.mp hp) (List.cons_ne_nil y w)
    · rcases h.front x s with ⟨hdel, hclear⟩ | ⟨c, rest, hc, hpiece, hdel, hgap⟩
      · rw [hdel] at hp
        obtain ⟨rfl, htail⟩ := List.cons_prefix_cons.mp hp
        refine ⟨[], s, rfl, h.gap_nil y, hclear, ?_⟩
        rcases w with _ | ⟨z, w⟩
        · exact ⟨[], s, rfl, .nil⟩
        · have hlt : s.length < (y :: s).length := Nat.lt_succ_self _
          obtain ⟨g, u, rfl, hg, -, t, post, rfl, hspell⟩ :=
            ih _ hlt (fun v hv => hw v (List.mem_cons_of_mem _ hv)) htail rfl
          exact ⟨g ++ z :: t, post, by simp, .letter hg hspell⟩
      · rw [hdel] at hp
        obtain ⟨g, u, rfl, hg, hclear, hrest⟩ := ih _ (hpiece.length_lt hc) hw hp rfl
        have hy := hw y List.mem_cons_self
        exact ⟨c ++ g, u, by rw [hc, List.append_assoc], hgap y g u rfl hg hy hclear, hclear, hrest⟩

/-- **A word that is exposed was interrupted.** -/
theorem Erases.interrupted_of_infix {F : List α} (hF : L F) (hin : F <:+: del s) :
    Interrupted L gap s := by
  induction hn : s.length using Nat.strong_induction_on generalizing s with
  | _ n ih =>
    subst hn
    rcases s with _ | ⟨x, s⟩
    · rw [h.nil] at hin
      exact absurd (List.infix_nil.mp hin) (h.code.ne_nil hF)
    · rcases h.front x s with ⟨hdel, hclear⟩ | ⟨c, rest, hc, hpiece, hdel, -⟩
      · rw [hdel] at hin
        rcases List.infix_cons_iff.mp hin with hp | hin
        · rcases F with _ | ⟨y, w⟩
          · exact absurd rfl (h.code.ne_nil hF)
          obtain ⟨rfl, htail⟩ := List.cons_prefix_cons.mp hp
          have hsplit : ∃ t post, s = t ++ post ∧ Spelled gap t w := by
            rcases w with _ | ⟨z, w⟩
            · exact ⟨[], s, rfl, .nil⟩
            · have hclean : ∀ v ∈ z :: w, ¬ junk v :=
                fun v hv => h.clean hF (List.mem_cons_of_mem _ hv)
              obtain ⟨g, u, rfl, hg, -, t, post, rfl, hspell⟩ := h.spelled_of_prefix hclean htail
              exact ⟨g ++ z :: t, post, by simp, .letter hg hspell⟩
          obtain ⟨t, post, rfl, hspell⟩ := hsplit
          refine ⟨[], y, t, post, w, rfl, hspell, hF, ?_⟩
          -- without a gap the word would have stood at the front
          rintro rfl
          exact hclear _ hF (List.prefix_append (y :: t) post)
        · exact (ih _ (Nat.lt_succ_self _) hin rfl).append_left [x]
      · rw [hdel] at hin
        rw [hc]
        exact (ih _ (hpiece.length_lt hc) hin rfl).append_left c

/-! ### From the text to the erased text -/

/-- A part of a word that stands where a word is spelled has met no gap. -/
theorem Erases.plain {G q : List α} {y : α} (hspell : Spelled gap t w) (hG : L G)
    (hq : y :: q <:+ G) (hp : q <+: t ++ post) : t = w ∨ q <+: w ∧ q.length < w.length := by
  induction hspell generalizing y q with
  | nil => exact .inl rfl
  | @letter z g t w hg hspell ih =>
    rcases q with _ | ⟨z', q⟩
    · exact .inr ⟨List.nil_prefix, Nat.succ_pos _⟩
    have hsuffix : z' :: q <:+ G := (List.suffix_cons y _).trans hq
    have hlen : (z' :: q).length < G.length := Nat.lt_of_succ_le hq.length_le
    rcases h.gap_front hg with rfl | ⟨F, rest, hF, rfl⟩ | ⟨j, rest, hj, rfl⟩
    · obtain ⟨rfl, htail⟩ := List.cons_prefix_cons.mp hp
      rcases ih hsuffix htail with rfl | ⟨hp', hlt⟩
      · exact .inl rfl
      · exact .inr ⟨List.cons_prefix_cons.mpr ⟨rfl, hp'⟩, Nat.succ_lt_succ hlt⟩
    · -- a word of the gap would overlap with the word, or stand inside it
      exfalso
      have hF' : F <+: F ++ rest ++ z :: t ++ post := by
        rw [List.append_assoc, List.append_assoc]
        exact List.prefix_append _ _
      rcases List.prefix_or_prefix_of_prefix hp hF' with hpre | hpre
      · have heq := h.code.apart hG hF (List.cons_ne_nil z' q) hsuffix hpre
        rw [heq] at hlen
        exact lt_irrefl _ hlen
      · have heq := h.code.whole hG hF (hpre.isInfix.trans hsuffix.isInfix)
        have hle := hpre.length_le
        rw [heq] at hle
        omega
    · exfalso
      obtain ⟨rfl, -⟩ := List.cons_prefix_cons.mp hp
      exact h.clean hG (hsuffix.subset List.mem_cons_self) hj

/-- What ends a word does not stand where another is interrupted. -/
theorem Erases.not_prefix {F q : List α} (post : List α) (hF : L F) (hq : q <:+ F)
    (hnil : q ≠ []) (hspell : Spelled gap t w) (hword : L (x :: w)) (hne : t ≠ w) :
    ¬ q <+: x :: (t ++ post) := by
  intro hp
  rcases q with _ | ⟨y, q⟩
  · exact hnil rfl
  obtain ⟨rfl, htail⟩ := List.cons_prefix_cons.mp hp
  obtain ⟨hpre, hlt⟩ := (h.plain hspell hF hq htail).resolve_left hne
  have hpre : y :: q <+: y :: w := List.cons_prefix_cons.mpr ⟨rfl, hpre⟩
  have heq := h.code.apart hF hword hnil hq hpre
  have hsame := h.code.whole hword hF (heq ▸ hpre.isInfix)
  rw [← heq] at hsame
  rw [(List.cons.inj hsame).2] at hlt
  exact lt_irrefl _ hlt

/-- The pass comes to the front of an interrupted word. -/
theorem Erases.aligned (pre post : List α) (hspell : Spelled gap t w) (hword : L (x :: w))
    (hne : t ≠ w) : ∃ a, del (pre ++ x :: (t ++ post)) = a ++ del (x :: (t ++ post)) := by
  induction hn : pre.length using Nat.strong_induction_on generalizing pre with
  | _ n ih =>
    subst hn
    rcases pre with _ | ⟨y, pre⟩
    · exact ⟨[], rfl⟩
    rcases h.front y (pre ++ x :: (t ++ post)) with ⟨hdel, -⟩ | ⟨c, rest, hc, hpiece, hdel, -⟩
    · obtain ⟨a, ha⟩ := ih _ (Nat.lt_succ_self _) pre rfl
      exact ⟨y :: a, by rw [List.cons_append, hdel, ha]; rfl⟩
    · have hx : ¬ junk x := h.clean hword List.mem_cons_self
      obtain ⟨hcne, F, j, rfl, hF, hj⟩ := hpiece
      have hc : (y :: pre) ++ x :: (t ++ post) = (F ++ j) ++ rest := hc
      rw [List.cons_append, hdel]
      rcases List.append_eq_append_iff.mp hc with ⟨c', hcut, hrest⟩ | ⟨pre', hpre, rfl⟩
      · rcases c' with _ | ⟨x', c'⟩
        · exact ⟨[], by rw [List.nil_append, hrest, List.nil_append]⟩
        -- the piece would reach across the front, with its word or with its junk
        exfalso
        obtain ⟨rfl, hrest⟩ := List.cons.inj hrest
        rcases List.append_eq_append_iff.mp hcut with ⟨j', -, hjunk⟩ | ⟨f, hf, hfj⟩
        · exact hx (hj x (hjunk ▸ List.mem_append_right j' List.mem_cons_self))
        · rcases f with _ | ⟨x', f⟩
          · exact hx (hj x (by rw [← List.nil_append j, ← hfj]; exact List.mem_cons_self))
          obtain ⟨rfl, hcf⟩ := List.cons.inj hfj
          have hcf : c' = f ++ j := hcf
          have hword' : L F := hF.resolve_left (by rw [hf]; exact List.cons_ne_nil _ _)
          refine h.not_prefix post hword' ⟨y :: pre, hf.symm⟩ (List.cons_ne_nil x f)
            hspell hword hne ⟨j ++ rest, ?_⟩
          rw [hrest, hcf, List.cons_append, List.cons_append, List.append_assoc]
      · have hlt : pre'.length < (y :: pre).length := by
          have hpos := List.length_pos_iff.mpr hcne
          rw [hpre, List.length_append]
          omega
        exact ih _ hlt pre' rfl

/-- The rest of an interrupted word comes out without its gaps. -/
theorem Erases.prefix_of_spelled {W : List α} (hW : L W) (hspell : Spelled gap t w)
    (hsuffix : w <:+ W) (hproper : w ≠ W) : w <+: del (t ++ post) := by
  induction hspell with
  | nil => exact List.nil_prefix
  | @letter z g t w hg hspell ih =>
    have hz : ¬ junk z := h.clean hW (hsuffix.subset List.mem_cons_self)
    have hlen : (z :: w).length < W.length :=
      lt_of_le_of_ne hsuffix.length_le fun heq => hproper (hsuffix.eq_of_length heq)
    have hclear : Clear L (z :: (t ++ post)) := by
      intro G hG hp
      have hshort : ¬ G <+: z :: w := by
        intro hp'
        have heq := h.code.whole hW hG (hp'.isInfix.trans hsuffix.isInfix)
        have hle := hp'.length_le
        rw [heq] at hle
        omega
      rcases G with _ | ⟨y, G⟩
      · exact h.code.ne_nil hG rfl
      obtain ⟨rfl, htail⟩ := List.cons_prefix_cons.mp hp
      rcases h.plain hspell hG (List.suffix_refl _) htail with rfl | ⟨hpre, -⟩
      · rcases List.prefix_or_prefix_of_prefix hp (List.prefix_append (y :: t) post) with hp' | hp'
        · exact hshort hp'
        · exact hproper (h.code.apart hW hG (List.cons_ne_nil y t) hsuffix hp')
      · exact hshort (List.cons_prefix_cons.mpr ⟨rfl, hpre⟩)
    have hne : w ≠ W := by
      rintro rfl
      exact lt_irrefl _ ((Nat.lt_succ_self _).trans hlen)
    rw [List.append_assoc, List.cons_append, h.gap_erased hg hz hclear, h.kept hz hclear]
    exact List.cons_prefix_cons.mpr ⟨rfl, ih ((List.suffix_cons z w).trans hsuffix) hne⟩

/-- **A word that was interrupted is exposed.** -/
theorem Erases.infix_of_interrupted (hs : Interrupted L gap s) : ∃ F, L F ∧ F <:+: del s := by
  obtain ⟨pre, x, t, post, w, rfl, hspell, hword, hne⟩ := hs
  refine ⟨x :: w, hword, ?_⟩
  obtain ⟨a, ha⟩ := h.aligned pre post hspell hword hne
  have hclear : Clear L (x :: (t ++ post)) := fun G hG =>
    h.not_prefix post hG (List.suffix_refl G) (h.code.ne_nil hG) hspell hword hne
  have hrest : w <+: del (t ++ post) :=
    h.prefix_of_spelled hword hspell (List.suffix_cons x w) (List.cons_ne_self x w).symm
  rw [ha, h.kept (h.clean hword List.mem_cons_self) hclear]
  exact (List.cons_prefix_cons.mpr ⟨rfl, hrest⟩).isInfix.trans (List.suffix_append a _).isInfix

/-- **What an erasure exposes.** -/
theorem Erases.exposed_iff : (∃ F, L F ∧ F <:+: del s) ↔ Interrupted L gap s := by
  constructor
  · rintro ⟨F, hF, hin⟩
    exact h.interrupted_of_infix hF hin
  · exact h.infix_of_interrupted

end

end Erasure
