/-
What a text says.

* `Says` — a phrase stands in a text;
* `says_ofList` — which is decided on characters;
* `infix_append_separator` — a phrase does not reach across characters that it does not have;
* `says_numeral` — nor across a numeral, if it has no digits;
* `count`, `count_append_cons` — how often a phrase stands in a text.
-/
import Mathlib.Data.List.Infix
import Mathlib.Data.Nat.Digits.Defs

/-- The phrase stands somewhere in the text. -/
def Says (text phrase : String) : Prop := phrase.toList <:+: text.toList

instance (text phrase : String) : Decidable (Says text phrase) :=
  inferInstanceAs (Decidable (_ <:+: _))

theorem says_ofList {text phrase : List Char} :
    Says (String.ofList text) (String.ofList phrase) ↔ phrase <:+: text := by
  rw [Says, String.toList_ofList, String.toList_ofList]

namespace Phrase

variable {α : Type*} {p a b d : List α} {c : α}

/-- A phrase without the separator stands before it or after it. -/
theorem infix_append_cons (hc : c ∉ p) : p <:+: a ++ c :: b ↔ p <:+: a ∨ p <:+: b := by
  constructor
  · rintro ⟨u, v, huv⟩
    rcases List.append_eq_append_iff.mp huv with ⟨a', rfl, -⟩ | ⟨c', hup, hcb⟩
    · exact .inl ⟨u, a', rfl⟩
    · rcases c' with _ | ⟨x, c'⟩
      · rw [List.append_nil] at hup
        exact .inl ⟨u, [], by rw [List.append_nil, hup]⟩
      · obtain ⟨rfl, rfl⟩ := List.cons.inj hcb
        -- the phrase ends after the separator, so it begins after it
        rcases List.append_eq_append_iff.mp hup with ⟨e, -, rfl⟩ | ⟨e, rfl, he⟩
        · exact absurd (List.mem_append_right e List.mem_cons_self) hc
        · rcases e with _ | ⟨y, e⟩
          · rw [List.nil_append] at he
            exact absurd (he ▸ List.mem_cons_self) hc
          · obtain ⟨-, rfl⟩ := List.cons.inj he
            exact .inr ⟨e, v, rfl⟩
  · rintro (h | h)
    · exact h.trans (List.prefix_append a (c :: b)).isInfix
    · exact h.trans ((List.suffix_cons c b).trans (List.suffix_append a (c :: b))).isInfix

theorem infix_append_separator (hd : d ≠ []) (hp : ∀ c ∈ d, c ∉ p) :
    p <:+: a ++ d ++ b ↔ p <:+: a ∨ p <:+: b := by
  induction d generalizing a with
  | nil => exact absurd rfl hd
  | cons c d ih =>
    have hc : c ∉ p := hp c List.mem_cons_self
    rw [List.append_assoc, List.cons_append, infix_append_cons hc]
    rcases d with _ | ⟨c', d⟩
    · rfl
    · have hrest := @ih [] (by simp) fun c hmem => hp c (List.mem_cons_of_mem _ hmem)
      rw [List.nil_append] at hrest
      rw [hrest]
      refine or_congr_right ⟨?_, .inr⟩
      rintro (h | h)
      · rw [List.eq_nil_of_infix_nil h]
        exact List.nil_infix
      · exact h

/-! ### How often -/

theorem prefix_append_cons (hc : c ∉ p) : p <+: a ++ c :: b ↔ p <+: a := by
  constructor
  · intro h
    rcases List.prefix_or_prefix_of_prefix h (List.prefix_append a (c :: b)) with hp | ⟨e, rfl⟩
    · exact hp
    · rcases e with _ | ⟨y, e⟩
      · rw [List.append_nil]
      · obtain ⟨rfl, -⟩ := List.cons_prefix_cons.mp ((List.prefix_append_right_inj a).mp h)
        exact absurd (List.mem_append_right a List.mem_cons_self) hc
  · exact fun h => h.trans (List.prefix_append a (c :: b))

section

variable [DecidableEq α] {s : List α} {x : α}

/-- At how many places the phrase begins. -/
def count (p s : List α) : ℕ := s.tails.countP fun u => p <+: u

theorem count_cons : count p (x :: s) = count p s + if p <+: x :: s then 1 else 0 := by
  unfold count
  rw [List.tails_cons, List.countP_cons]
  simp only [decide_eq_true_eq]

theorem count_eq_zero : count p s = 0 ↔ ¬ p <:+: s := by
  unfold count
  rw [List.countP_eq_zero]
  constructor
  · rintro h ⟨u, v, rfl⟩
    have hmem : p ++ v ∈ (u ++ p ++ v).tails :=
      (List.mem_tails _ _).mpr ⟨u, (List.append_assoc u p v).symm⟩
    exact h _ hmem (decide_eq_true (List.prefix_append p v))
  · intro h u hu hp
    exact h ((of_decide_eq_true hp).isInfix.trans ((List.mem_tails _ _).mp hu).isInfix)

theorem count_append_cons (hp : p ≠ []) (hc : c ∉ p) :
    count p (a ++ c :: b) = count p a + count p b := by
  induction a with
  | nil =>
    have hnot : ¬ p <+: c :: b := fun h => hp (List.prefix_nil.mp ((prefix_append_cons hc).mp h))
    have hnil : count p [] = 0 := count_eq_zero.mpr fun h => hp (List.infix_nil.mp h)
    rw [List.nil_append, count_cons, if_neg hnot, hnil, Nat.add_zero, Nat.zero_add]
  | cons x a ih =>
    have hiff : p <+: (x :: a) ++ c :: b ↔ p <+: x :: a := prefix_append_cons hc
    rw [List.cons_append] at hiff
    rw [List.cons_append, count_cons, count_cons, ih]
    simp only [hiff]
    omega

end

/-! ### Numerals -/

/-- Digits, perhaps with a sign. -/
structure Numeral (s : String) : Prop where
  nonempty : s.toList ≠ []
  digits : ∀ c ∈ s.toList, c.isDigit = true ∨ c = '-'

theorem isDigit_of_mem_toString {n : ℕ} {c : Char} (hc : c ∈ (toString n).toList) :
    c.isDigit = true := by
  rw [Nat.toString_eq_repr, Nat.toList_repr] at hc
  exact Nat.isDigit_of_mem_toDigits (by decide) (by decide) hc

theorem numeral_nat (n : ℕ) : Numeral (toString n) := by
  refine ⟨?_, fun c hc => .inl (isDigit_of_mem_toString hc)⟩
  rw [Nat.toString_eq_repr, Nat.toList_repr]
  exact Nat.toDigits_ne_nil

theorem numeral_int (n : ℤ) : Numeral (toString n) := by
  cases n with
  | ofNat n => exact numeral_nat n
  | negSucc n =>
    have hrepr : (toString (Int.negSucc n)).toList = '-' :: (toString (n + 1)).toList :=
      String.toList_append
    constructor
    · rw [hrepr]
      exact List.cons_ne_nil _ _
    · intro c hc
      rw [hrepr] at hc
      rcases List.mem_cons.mp hc with rfl | hc
      · exact .inr rfl
      · exact (numeral_nat (n + 1)).digits c hc

/-- No digit, and no sign. -/
def Wordy (phrase : List Char) : Prop := ∀ c ∈ phrase, c.isDigit = false ∧ c ≠ '-'

instance (phrase : List Char) : Decidable (Wordy phrase) :=
  List.decidableBAll (fun c : Char => c.isDigit = false ∧ c ≠ '-') phrase

/-- **A numeral between two texts** says nothing, nor do the texts across it. -/
theorem says_numeral {phrase before after numeral : String} (hp : Wordy phrase.toList)
    (hn : Numeral numeral) :
    Says (before ++ (numeral ++ after)) phrase ↔ Says before phrase ∨ Says after phrase := by
  unfold Says
  rw [String.toList_append, String.toList_append, ← List.append_assoc]
  refine infix_append_separator hn.nonempty fun c hc hmem => ?_
  obtain ⟨hdigit, hsign⟩ := hp c hmem
  rcases hn.digits c hc with h | h
  · rw [hdigit] at h
    cases h
  · exact hsign h

end Phrase
