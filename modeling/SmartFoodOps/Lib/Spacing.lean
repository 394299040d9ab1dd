/-
Texts up to junk, such as white space.

The words of a language have no junk in them, so junk only stands between them, and how much of it
stands there does not matter to them.

* `solid` — a text without its junk;
* `Occurs` — a word stands in a text, and does not reach across junk (`Clean.occurs_append_junk`);
* `Respaced` — texts that differ in the amount of junk at the same places, in any surroundings;
* `Thins` — junk may be left out altogether: words stay (`Thins.occurs`), but new ones can appear.
-/
import SmartFoodOps.Lib.Phrase

namespace Spacing

variable {α : Type*}

def solid (junk : α → Bool) (s : List α) : List α := s.filter fun x => ! junk x

/-- A word of the language stands in the text. -/
def Occurs (L : List α → Prop) (s : List α) : Prop := ∃ F, L F ∧ F <:+: s

/-- No word is empty, and none has junk in it. -/
structure Clean (L : List α → Prop) (junk : α → Bool) : Prop where
  ne_nil : ∀ {F}, L F → F ≠ []
  clean : ∀ {F x}, L F → x ∈ F → ¬ junk x = true

variable {L : List α → Prop} {junk : α → Bool} {a b d s t u : List α} {x : α}

/-! ### Without junk -/

theorem solid_append : solid junk (s ++ t) = solid junk s ++ solid junk t := List.filter_append s t

theorem solid_cons (hx : ¬ junk x = true) : solid junk (x :: s) = x :: solid junk s :=
  List.filter_cons_of_pos (by simpa using hx)

theorem solid_cons_junk (hx : junk x = true) : solid junk (x :: s) = solid junk s :=
  List.filter_cons_of_neg (by simp [hx])

theorem solid_junk (hd : ∀ x ∈ d, junk x = true) : solid junk d = [] := by
  refine List.filter_eq_nil_iff.mpr fun x hx => ?_
  simp [hd x hx]

theorem solid_dropWhile {p : α → Bool} (hp : ∀ x, p x = true → junk x = true) :
    solid junk (s.dropWhile p) = solid junk s := by
  induction s with
  | nil => rfl
  | cons x s ih =>
    by_cases hx : p x = true
    · rw [List.dropWhile_cons_of_pos hx, ih, solid_cons_junk (hp x hx)]
    · rw [List.dropWhile_cons_of_neg hx]

/-! ### Words between junk -/

theorem Occurs.of_infix (h : Occurs L s) (hs : s <:+: t) : Occurs L t := by
  obtain ⟨F, hF, hin⟩ := h
  exact ⟨F, hF, hin.trans hs⟩

section

variable (h : Clean L junk)

include h

theorem Clean.not_occurs_nil : ¬ Occurs L [] := by
  rintro ⟨F, hF, hin⟩
  exact h.ne_nil hF (List.infix_nil.mp hin)

/-- **No word reaches across junk.** -/
theorem Clean.occurs_append_junk (hne : d ≠ []) (hd : ∀ x ∈ d, junk x = true) :
    Occurs L (a ++ d ++ b) ↔ Occurs L a ∨ Occurs L b := by
  have hword : ∀ F, L F → (F <:+: a ++ d ++ b ↔ F <:+: a ∨ F <:+: b) := fun F hF =>
    Phrase.infix_append_separator hne fun x hx hmem => h.clean hF hmem (hd x hx)
  constructor
  · rintro ⟨F, hF, hin⟩
    rcases (hword F hF).mp hin with hin | hin
    · exact .inl ⟨F, hF, hin⟩
    · exact .inr ⟨F, hF, hin⟩
  · rintro (⟨F, hF, hin⟩ | ⟨F, hF, hin⟩)
    · exact ⟨F, hF, (hword F hF).mpr (.inl hin)⟩
    · exact ⟨F, hF, (hword F hF).mpr (.inr hin)⟩

theorem Clean.occurs_append_cons (hx : junk x = true) :
    Occurs L (a ++ x :: b) ↔ Occurs L a ∨ Occurs L b := by
  have hsplit := h.occurs_append_junk (a := a) (b := b) (List.cons_ne_nil x [])
    (List.forall_mem_singleton.mpr hx)
  rwa [List.append_assoc] at hsplit

/-- Junk in front of a text does not matter. -/
theorem Clean.occurs_cons (hx : junk x = true) : Occurs L (x :: s) ↔ Occurs L s := by
  rw [← List.nil_append (x :: s), h.occurs_append_cons hx]
  exact or_iff_right h.not_occurs_nil

theorem Clean.occurs_dropWhile {p : α → Bool} (hp : ∀ x, p x = true → junk x = true) :
    Occurs L (s.dropWhile p) ↔ Occurs L s := by
  induction s with
  | nil => exact Iff.rfl
  | cons x s ih =>
    by_cases hx : p x = true
    · rw [List.dropWhile_cons_of_pos hx, ih, h.occurs_cons (hp x hx)]
    · rw [List.dropWhile_cons_of_neg hx]

/-- Nor does junk behind it. -/
theorem Clean.occurs_append (hd : ∀ x ∈ d, junk x = true) : Occurs L (s ++ d) ↔ Occurs L s := by
  rcases d with _ | ⟨x, d⟩
  · rw [List.append_nil]
  · have hsplit := h.occurs_append_junk (a := s) (b := []) (List.cons_ne_nil x d) hd
    rw [List.append_nil] at hsplit
    rw [hsplit]
    exact or_iff_left h.not_occurs_nil

/-- Junk behind junk does not matter, nor does junk at the front. -/
theorem Clean.occurs_append_spaces (ht : t = [] ∨ ∃ t' x, t = t' ++ [x] ∧ junk x = true)
    (hd : ∀ x ∈ d, junk x = true) : Occurs L (t ++ (d ++ s)) ↔ Occurs L (t ++ s) := by
  rcases d with _ | ⟨y, d⟩
  · rfl
  rcases ht with rfl | ⟨t, x, rfl, hx⟩
  · have hsplit := h.occurs_append_junk (a := []) (b := s) (List.cons_ne_nil y d) hd
    rw [List.nil_append] at hsplit
    rw [List.nil_append, List.nil_append, hsplit]
    exact or_iff_right h.not_occurs_nil
  · have hd' : ∀ z ∈ x :: y :: d, junk z = true := List.forall_mem_cons.mpr ⟨hx, hd⟩
    have hsplit := h.occurs_append_junk (a := t) (b := s) (List.cons_ne_nil x _) hd'
    rw [List.append_assoc] at hsplit
    rw [List.append_assoc, List.append_assoc]
    exact hsplit.trans (h.occurs_append_cons hx).symm

end

/-! ### More junk, or less -/

/-- The same texts, but for the amount of junk where there is some. -/
structure Respaced (L : List α → Prop) (junk : α → Bool) (s t : List α) : Prop where
  solid : solid junk s = solid junk t
  occurs : ∀ a b, Occurs L (a ++ s ++ b) ↔ Occurs L (a ++ t ++ b)

theorem Respaced.refl : Respaced L junk s s := ⟨rfl, fun _ _ => Iff.rfl⟩

theorem Respaced.append (hs : Respaced L junk a b) (ht : Respaced L junk s t) :
    Respaced L junk (a ++ s) (b ++ t) := by
  constructor
  · rw [solid_append, solid_append, hs.solid, ht.solid]
  · intro c d
    have hleft := hs.occurs c (s ++ d)
    have hright := ht.occurs (c ++ b) d
    rw [← List.append_assoc c a s, ← List.append_assoc c b t]
    rw [List.append_assoc (c ++ a), hleft, ← List.append_assoc (c ++ b), hright]

theorem Respaced.cons (x : α) (h : Respaced L junk s t) : Respaced L junk (x :: s) (x :: t) :=
  Respaced.append (a := [x]) .refl h

theorem Respaced.occurs_iff (h : Respaced L junk s t) : Occurs L s ↔ Occurs L t := by
  have hoccurs := h.occurs [] []
  rwa [List.nil_append, List.append_nil, List.nil_append, List.append_nil] at hoccurs

theorem Clean.respaced_junk (h : Clean L junk) (hs : s ≠ []) (ht : t ≠ [])
    (hs' : ∀ x ∈ s, junk x = true) (ht' : ∀ x ∈ t, junk x = true) : Respaced L junk s t := by
  constructor
  · rw [solid_junk hs', solid_junk ht']
  · intro a b
    rw [h.occurs_append_junk hs hs', h.occurs_append_junk ht ht']

/-- Junk is left out. -/
inductive Thins (junk : α → Bool) : List α → List α → Prop
  | nil : Thins junk [] []
  | keep {x : α} {s t : List α} : Thins junk s t → Thins junk (x :: s) (x :: t)
  | drop {x : α} {s t : List α} : junk x = true → Thins junk s t → Thins junk (x :: s) t

theorem Thins.refl : ∀ s : List α, Thins junk s s
  | [] => .nil
  | _ :: s => .keep (Thins.refl s)

theorem Thins.append_left (a : List α) (h : Thins junk s t) : Thins junk (a ++ s) (a ++ t) := by
  induction a with
  | nil => exact h
  | cons x a ih => exact .keep ih

theorem Thins.trans (h : Thins junk s t) (h' : Thins junk t u) : Thins junk s u := by
  induction h generalizing u with
  | nil => exact h'
  | @keep x s t h ih =>
    rcases h' with _ | h' | ⟨hx, h'⟩
    · exact .keep (ih h')
    · exact .drop hx (ih h')
  | drop hx _ ih => exact .drop hx (ih h')

theorem Thins.solid (h : Thins junk s t) : solid junk s = solid junk t := by
  induction h with
  | nil => rfl
  | @keep x s t _ ih =>
    by_cases hx : junk x = true
    · rw [solid_cons_junk hx, solid_cons_junk hx, ih]
    · rw [solid_cons hx, solid_cons hx, ih]
  | drop hx _ ih => rw [solid_cons_junk hx, ih]

theorem Thins.starts {F : List α} (h : Thins junk s t) (hF : ∀ x ∈ F, ¬ junk x = true)
    (hp : F <+: s) : F <+: t := by
  induction h generalizing F with
  | nil => exact hp
  | @keep x s t _ ih =>
    rcases F with _ | ⟨y, F⟩
    · exact List.nil_prefix
    obtain ⟨rfl, htail⟩ := List.cons_prefix_cons.mp hp
    exact List.cons_prefix_cons.mpr ⟨rfl, ih (fun z hz => hF z (List.mem_cons_of_mem _ hz)) htail⟩
  | @drop x s t hx _ _ =>
    rcases F with _ | ⟨y, F⟩
    · exact List.nil_prefix
    obtain ⟨rfl, -⟩ := List.cons_prefix_cons.mp hp
    exact absurd hx (hF y List.mem_cons_self)

/-- **Words that stood in the text** still stand there. -/
theorem Thins.occurs (h : Thins junk s t) (hL : Clean L junk) (hs : Occurs L s) : Occurs L t := by
  obtain ⟨F, hF, hin⟩ := hs
  have hclean : ∀ x ∈ F, ¬ junk x = true := fun x hx => hL.clean hF hx
  refine ⟨F, hF, ?_⟩
  induction h with
  | nil => exact hin
  | @keep x s t h ih =>
    rcases List.infix_cons_iff.mp hin with hp | hin
    · exact (h.keep.starts hclean hp).isInfix
    · exact (ih hin).trans (List.suffix_cons x t).isInfix
  | @drop x s t hx h ih =>
    rcases List.infix_cons_iff.mp hin with hp | hin
    · exact ((Thins.drop hx h).starts hclean hp).isInfix
    · exact ih hin

end Spacing
