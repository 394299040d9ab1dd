/-
Tags in a review, and what is left of them.

The tags that enclose the reviews are taken out of each review in one pass, and the white space is
collapsed after that.  A tag with another tag in one of its gaps is none before the pass, and is
one after it.

* `Tag`, `matches_reviewFence` — what the pattern of the fence matches;
* `Gap`, `Nested` — what the pass makes white space of, and tags with a tag in one of their gaps;
* `blanked` — what the pass and the collapsing make of a review;
* `Nested.blanked_append`, `Tag.exists_nested` — a nested tag becomes a tag, and no other does.
-/
import SmartFoodOps.Assistant.Content
import SmartFoodOps.Lib.Matching
import SmartFoodOps.Lib.Erasure
import SmartFoodOps.Lib.Phrase

open Regex Erasure

namespace Assistant.Generation

/-! ### Tags -/

def Spaces (g : List Char) : Prop := ∀ c ∈ g, isSpace c = true

/-- `reviews`, when case is ignored. -/
def Named (name : List Char) : Prop :=
  List.Forall₂ (fun x y => sameLetter x y = true) "reviews".toList name

/-- A tag without its gaps. -/
def Fence (F : List Char) : Prop :=
  ∃ name, Named name ∧ (F = '<' :: (name ++ ['>']) ∨ F = '<' :: '/' :: (name ++ ['>']))

/-- Gaps stand before the slash, before the name and behind it. -/
def Loose (G : List Char → Prop) (x : Char) (g : List Char) : Prop :=
  g = [] ∨ (x = '/' ∨ sameLetter 'r' x = true ∨ x = '>') ∧ G g

/-- A tag, with white space in its gaps. -/
def Tag (w : List Char) : Prop := ∃ F, Fence F ∧ Spelled (Loose Spaces) w F

section

variable {G : List Char → Prop} {b w a s t u F g name : List Char} {x : Char}

theorem loose_nil : Loose G x [] := .inl rfl

theorem spelled_append (h : Spelled (Loose G) t w) : Spelled (Loose G) (u ++ t) (u ++ w) := by
  induction u with
  | nil => exact h
  | cons x u ih => exact .letter (g := []) loose_nil ih

theorem eq_of_sameLetter_r (h : sameLetter 'r' x = true) : x = 'r' ∨ x = 'R' := by
  have hn : x.toNat = 'r'.toNat ∨ x.toNat = 'R'.toNat := by
    simp [sameLetter] at h
    simp
    omega
  exact hn.imp Char.toNat_inj.mp Char.toNat_inj.mp

/-- No gap stands before the letters of the name, but for the first. -/
theorem eq_nil_of_letter {c : Char} (hc : c ∈ "eviews".toList) (hx : sameLetter c x = true)
    (hg : Loose G x g) : g = [] := by
  have hall : ∀ c ∈ "eviews".toList, ∀ y ∈ ['/', 'r', 'R', '>'], sameLetter c y = false :=
    forall₂_of_all (by decide)
  have hother : ∀ y ∈ ['/', 'r', 'R', '>'], x ≠ y := by
    rintro y hy rfl
    rw [hall c hc x hy] at hx
    cases hx
  rcases hg with rfl | ⟨rfl | hr | rfl, -⟩
  · rfl
  · exact absurd rfl (hother '/' (by decide))
  · rcases eq_of_sameLetter_r hr with rfl | rfl
    · exact absurd rfl (hother 'r' (by decide))
    · exact absurd rfl (hother 'R' (by decide))
  · exact absurd rfl (hother '>' (by decide))

/-- What is spelled from the second letter of the name on has its only gap at the end. -/
theorem exists_of_spelled_letters {l : List Char} (hl : l <:+ "eviews".toList)
    (hname : List.Forall₂ (fun x y => sameLetter x y = true) l name)
    (h : Spelled (Loose G) t (name ++ ['>'])) :
    ∃ g, t = name ++ (g ++ ['>']) ∧ (g = [] ∨ G g) := by
  induction hname generalizing t with
  | nil =>
    generalize hF : ([] ++ ['>'] : List Char) = F at h
    rcases h with _ | ⟨hg, hrest⟩
    · cases hF
    · obtain ⟨rfl, rfl⟩ := List.cons.inj hF
      cases hrest
      exact ⟨_, rfl, hg.imp_right And.right⟩
  | @cons c x l name hx _ ih =>
    generalize hF : (x :: name ++ ['>'] : List Char) = F at h
    rcases h with _ | ⟨hg, hrest⟩
    · cases hF
    · obtain ⟨rfl, rfl⟩ := List.cons.inj hF
      obtain rfl := eq_nil_of_letter (hl.subset List.mem_cons_self) hx hg
      obtain ⟨g, rfl, hg⟩ := ih ((List.suffix_cons c l).trans hl) hrest
      exact ⟨g, rfl, hg⟩

theorem exists_of_spelled_name (hname : Named name)
    (h : Spelled (Loose G) t (name ++ ['>'])) :
    ∃ g₁ g₃, t = g₁ ++ (name ++ (g₃ ++ ['>'])) ∧ (g₁ = [] ∨ G g₁) ∧ (g₃ = [] ∨ G g₃) := by
  have hletters : "reviews".toList = 'r' :: "eviews".toList := by decide
  unfold Named at hname
  rw [hletters] at hname
  rcases hname with _ | @⟨_, x, _, rest, hx, hrest⟩
  generalize hF : (x :: rest ++ ['>'] : List Char) = F at h
  rcases h with _ | ⟨hg, htail⟩
  · cases hF
  · obtain ⟨rfl, rfl⟩ := List.cons.inj hF
    obtain ⟨g₃, rfl, hg₃⟩ := exists_of_spelled_letters (List.suffix_refl _) hrest htail
    exact ⟨_, g₃, rfl, hg.imp_right And.right, hg₃⟩

theorem spelled_of_name (hname : Named name) (hu : G u) (hg : G g) :
    Spelled (Loose G) (u ++ (name ++ (g ++ ['>']))) (name ++ ['>']) := by
  have hletters : "reviews".toList = 'r' :: "eviews".toList := by decide
  unfold Named at hname
  rw [hletters] at hname
  rcases hname with _ | @⟨_, x, _, rest, hx, -⟩
  refine .letter (.inr ⟨.inr (.inl hx), hu⟩) (spelled_append ?_)
  exact .letter (.inr ⟨.inr (.inr rfl), hg⟩) .nil

theorem spaces_nil : Spaces [] := List.forall_mem_nil _

theorem spaces_of_or (h : g = [] ∨ Spaces g) : Spaces g := by
  rcases h with rfl | h
  · exact spaces_nil
  · exact h

/-- A tag begins with its first letter. -/
theorem eq_nil_of_open (hg : Loose G '<' g) : g = [] := by
  rcases hg with rfl | ⟨h | h | h, -⟩
  · rfl
  · exact absurd h (by decide)
  · exact absurd h (by decide)
  · exact absurd h (by decide)

/-- **What the pattern matches.** -/
theorem matches_reviewFence : Matches reviewFence b w a ↔ Tag w := by
  constructor
  · rintro ⟨_, _, rfl, hopen, g₁, _, rfl, hg₁, o, _, rfl, ho, g₂, _, rfl, hg₂, name, _, rfl, hname,
      g₃, _, rfl, hg₃, _, _, rfl, hclose, rfl⟩
    obtain rfl := matches_lit.mp hopen
    obtain rfl := matches_lit.mp hclose
    replace hg₁ : Spaces g₁ := matches_star_char.mp hg₁
    replace hg₂ : Spaces g₂ := matches_star_char.mp hg₂
    replace hg₃ : Spaces g₃ := matches_star_char.mp hg₃
    replace hname : Named name := matches_word.mp hname
    rcases matches_opt.mp ho with ho | rfl
    · obtain rfl := matches_lit.mp ho
      exact ⟨_, ⟨name, hname, .inr rfl⟩, .letter loose_nil
        (.letter (.inr ⟨.inl rfl, hg₁⟩) (spelled_of_name hname hg₂ hg₃))⟩
    · refine ⟨_, ⟨name, hname, .inl rfl⟩, .letter loose_nil ?_⟩
      rw [List.nil_append, List.append_nil, ← List.append_assoc]
      exact spelled_of_name hname (List.forall_mem_append.mpr ⟨hg₁, hg₂⟩) hg₃
  · rintro ⟨_, ⟨name, hname, rfl | rfl⟩, h⟩
    · rcases h with _ | ⟨hg, h⟩
      obtain rfl := eq_nil_of_open hg
      obtain ⟨g₁, g₃, rfl, hg₁, hg₃⟩ := exists_of_spelled_name hname h
      exact ⟨['<'], _, rfl, matches_lit.mpr rfl, g₁, _, rfl,
        matches_star_char.mpr (spaces_of_or hg₁), [], _, rfl, .inr rfl, [], _, rfl,
        matches_star_char.mpr spaces_nil, name, _, rfl, matches_word.mpr hname, g₃, _, rfl,
        matches_star_char.mpr (spaces_of_or hg₃), ['>'], [], rfl, matches_lit.mpr rfl, rfl⟩
    · rcases h with _ | ⟨hg, h⟩
      obtain rfl := eq_nil_of_open hg
      rcases h with _ | @⟨_, g, _, _, hg, h⟩
      obtain ⟨g₁, g₃, rfl, hg₁, hg₃⟩ := exists_of_spelled_name hname h
      exact ⟨['<'], _, rfl, matches_lit.mpr rfl, g, _, rfl,
        matches_star_char.mpr (spaces_of_or (hg.imp_right And.right)), ['/'], _, rfl,
        .inl (matches_lit.mpr rfl), g₁, _, rfl, matches_star_char.mpr (spaces_of_or hg₁), name, _,
        rfl, matches_word.mpr hname, g₃, _, rfl, matches_star_char.mpr (spaces_of_or hg₃), ['>'], [],
        rfl, matches_lit.mpr rfl, rfl⟩

/-! ### What stands in a tag -/

/-- The characters that a letter matches, and a few more. -/
def variants (c : Char) : List Char :=
  [c.toNat, c.toNat - 32, 0x130, 0x131, 0x17f, 0x212a].map Char.ofNat

theorem mem_variants {c : Char} (h : sameLetter c x = true) : x ∈ variants c := by
  have hn : x.toNat ∈ [c.toNat, c.toNat - 32, 0x130, 0x131, 0x17f, 0x212a] := by
    simp [sameLetter] at h
    simp
    omega
  rw [← Char.ofNat_toNat x]
  exact List.mem_map_of_mem hn

theorem letter_of_named (hname : Named name) (hx : x ∈ name) :
    ¬ isSpace x = true ∧ ¬ x.isDigit = true ∧ x ∉ ['<', '>'] := by
  have hall : ∀ c ∈ "reviews".toList, ∀ y ∈ variants c,
      ¬ isSpace y = true ∧ ¬ y.isDigit = true ∧ y ∉ ['<', '>'] := forall₂_of_all (by decide)
  unfold Named at hname
  revert hall
  generalize "reviews".toList = l at hname ⊢
  induction hname with
  | nil => exact absurd hx List.not_mem_nil
  | @cons c y l name hy _ ih =>
    intro hall
    obtain ⟨hc, hl⟩ := List.forall_mem_cons.mp hall
    rcases List.mem_cons.mp hx with rfl | hx
    · exact hc x (mem_variants hy)
    · exact ih hx hl

/-- What may follow the first letter of a tag: another tag neither begins nor ends before it does. -/
structure Inner (t : List Char) : Prop where
  opening : '<' ∉ t
  digit : ∀ x ∈ t, ¬ x.isDigit = true
  closing : ∀ A B, t = A ++ '>' :: B → B = []

theorem Inner.tail (h : Inner (x :: t)) : Inner t where
  opening ht := h.opening (List.mem_cons_of_mem _ ht)
  digit y hy := h.digit y (List.mem_cons_of_mem _ hy)
  closing A B ht := h.closing (x :: A) B (by rw [ht]; rfl)

theorem Inner.cons (h : Inner t) (hx : x ∉ ['<', '>']) (hd : ¬ x.isDigit = true) :
    Inner (x :: t) where
  opening ht := by
    rcases List.mem_cons.mp ht with rfl | ht
    · exact hx (by decide)
    · exact h.opening ht
  digit := List.forall_mem_cons.mpr ⟨hd, h.digit⟩
  closing := by
    rintro (_ | ⟨y, A⟩) B ht
    · obtain ⟨rfl, -⟩ := List.cons.inj ht
      exact absurd (by decide) hx
    · exact h.closing A B (List.cons.inj ht).2

theorem inner_close : Inner ['>'] where
  opening := by decide
  digit := forall_of_all (by decide)
  closing := by
    rintro (_ | ⟨y, A⟩) B ht
    · exact (List.cons.inj ht).2.symm
    · exact absurd (List.cons.inj ht).2.symm (by simp)

/-- The letters of a tag, but for the first. -/
structure Rest (F : List Char) : Prop extends Inner F where
  solid : ∀ x ∈ F, ¬ isSpace x = true

theorem Rest.tail (h : Rest (x :: F)) : Rest F :=
  ⟨h.toInner.tail, fun y hy => h.solid y (List.mem_cons_of_mem _ hy)⟩

theorem rest_of_letters (hname : ∀ x ∈ name, ¬ isSpace x = true ∧ ¬ x.isDigit = true ∧ x ∉ ['<', '>']) :
    Rest (name ++ ['>']) := by
  induction name with
  | nil => exact ⟨inner_close, forall_of_all (by decide)⟩
  | cons x name ih =>
    obtain ⟨⟨hspace, hdigit, hx⟩, hname⟩ := List.forall_mem_cons.mp hname
    exact ⟨(ih hname).toInner.cons hx hdigit, List.forall_mem_cons.mpr ⟨hspace, (ih hname).solid⟩⟩

theorem Fence.exists_rest (h : Fence F) : ∃ F', F = '<' :: F' ∧ '>' ∈ F' ∧ Rest F' := by
  obtain ⟨name, hname, rfl | rfl⟩ := h
  · exact ⟨_, rfl, by simp, rest_of_letters fun x hx => letter_of_named hname hx⟩
  · refine ⟨'/' :: name ++ ['>'], rfl, by simp, rest_of_letters ?_⟩
    exact List.forall_mem_cons.mpr ⟨by decide, fun x hx => letter_of_named hname hx⟩

theorem not_special_of_space (hx : isSpace x = true) : ¬ x.isDigit = true ∧ x ∉ ['<', '>'] := by
  constructor
  · intro hd
    simp [isSpace] at hx
    simp [Char.isDigit, UInt32.le_iff_toNat_le] at hd
    omega
  · intro h
    have hall : ∀ y ∈ ['<', '>'], isSpace y = false := forall_of_all (by decide)
    rw [hall x h] at hx
    cases hx

theorem Inner.spaces_append (h : Inner t) (hg : Spaces g) : Inner (g ++ t) := by
  induction g with
  | nil => exact h
  | cons x g ih =>
    obtain ⟨hx, hg⟩ := List.forall_mem_cons.mp hg
    obtain ⟨hdigit, hx⟩ := not_special_of_space hx
    exact (ih hg).cons hx hdigit

/-- Nothing more comes after the last letter. -/
theorem Rest.eq_nil_of_close (h : Rest ('>' :: F)) : F = [] := h.closing [] F rfl

theorem Rest.inner_of_spelled (hF : Rest F) (h : Spelled (Loose Spaces) t F) : Inner t := by
  induction h with
  | nil => exact hF.toInner
  | @letter x g t F hg hspell ih =>
    refine Inner.spaces_append ?_ (spaces_of_or (hg.imp_right And.right))
    have ht := ih hF.tail
    refine ⟨?_, List.forall_mem_cons.mpr ⟨hF.digit x List.mem_cons_self, ht.digit⟩, ?_⟩
    · intro h
      rcases List.mem_cons.mp h with rfl | h
      · exact hF.opening List.mem_cons_self
      · exact ht.opening h
    · rintro (_ | ⟨y, A⟩) B h
      · obtain ⟨rfl, rfl⟩ := List.cons.inj h
        obtain rfl := hF.eq_nil_of_close
        cases hspell
        rfl
      · exact ht.closing A B (List.cons.inj h).2

theorem mem_of_spelled {gap : Char → List Char → Prop} (h : Spelled gap t F) (hx : x ∈ F) :
    x ∈ t := by
  induction h with
  | nil => exact hx
  | letter _ _ ih =>
    refine List.mem_append_right _ ?_
    rcases List.mem_cons.mp hx with rfl | hx
    · exact List.mem_cons_self
    · exact List.mem_cons_of_mem _ (ih hx)

/-- **A tag** has one bracket at each end. -/
theorem Tag.exists_inner (h : Tag w) : ∃ t, w = '<' :: t ∧ '>' ∈ t ∧ Inner t := by
  obtain ⟨F, hF, hspell⟩ := h
  obtain ⟨F', rfl, hclose, hrest⟩ := hF.exists_rest
  rcases hspell with _ | ⟨hg, hspell⟩
  obtain rfl := eq_nil_of_open hg
  exact ⟨_, rfl, mem_of_spelled hspell hclose, hrest.inner_of_spelled hspell⟩

theorem prefixCode_reviewFence : PrefixCode reviewFence where
  plain := ⟨trivial, trivial, ⟨trivial, trivial⟩, trivial, plain_word _ _, trivial, trivial, trivial⟩
  ne_nil h := by
    obtain ⟨t, rfl, -⟩ := (matches_reviewFence.mp h).exists_inner
    exact List.cons_ne_nil _ _
  eq_of_prefix hu hv hp := by
    obtain ⟨t, rfl, ht, -⟩ := (matches_reviewFence.mp hu).exists_inner
    obtain ⟨t', rfl, -, ht'⟩ := (matches_reviewFence.mp hv).exists_inner
    obtain ⟨-, r, rfl⟩ := List.cons_prefix_cons.mp hp
    obtain ⟨A, B, rfl⟩ := List.append_of_mem ht
    have hB := ht'.closing A (B ++ r) (by simp)
    rw [(List.append_eq_nil_iff.mp hB).2, List.append_nil]

/-! ### One pass over a review -/

/-- What the pass makes white space of. -/
inductive Gap : List Char → Prop
  | nil : Gap []
  | space {c : Char} {g : List Char} : isSpace c = true → Gap g → Gap (c :: g)
  | tag {w g : List Char} : Tag w → Gap g → Gap (w ++ g)

/-- A tag with a tag in one of its gaps. -/
def Nested (n : List Char) : Prop := (∃ F, Fence F ∧ Spelled (Loose Gap) n F) ∧ ¬ Tag n

/-- No tag stands at the front. -/
def NoTag (s : List Char) : Prop := ∀ w, Tag w → ¬ w <+: s

/-- The tags, taken out. -/
def unfenced (s : List Char) : List Char := reviewFence.replaceAll (fun _ => [' ']) s

/-- The white space, collapsed. -/
def collapsed (s : List Char) : List Char := Pattern.spaces.replaceAll (fun _ => [' ']) s

theorem unfenced_tag (hw : Tag w) : unfenced (w ++ s) = ' ' :: unfenced s :=
  prefixCode_reviewFence.replaceAll_match (matches_reviewFence.mpr hw)

theorem unfenced_cons (hs : NoTag (x :: s)) : unfenced (x :: s) = x :: unfenced s :=
  prefixCode_reviewFence.replaceAll_cons fun w hw => hs w (matches_reviewFence.mp hw)

theorem noTag_of_ne (hx : x ≠ '<') : NoTag (x :: s) := by
  rintro w hw hp
  obtain ⟨t, rfl, -⟩ := hw.exists_inner
  exact hx (List.cons_prefix_cons.mp hp).1.symm

theorem collapsed_cons (hx : ¬ isSpace x = true) : collapsed (x :: s) = x :: collapsed s := by
  refine replaceAll_of_not_reads (reads_seq_char reads_star) ?_
  exact if_neg hx

theorem collapsed_space (hx : isSpace x = true) :
    collapsed (x :: s) = ' ' :: collapsed (s.dropWhile isSpace) := by
  refine replaceAll_of_reads (reads_seq_char reads_star) (if_pos hx) ?_
  exact (List.dropWhile_suffix _).length_le

/-- White space is not part of a tag that begins with it. -/
theorem ne_open_of_space (hx : isSpace x = true) : x ≠ '<' := by
  rintro rfl
  exact absurd hx (by decide)

theorem unfenced_gap (hg : Gap g) :
    ∃ g', Spaces g' ∧ ∀ s, unfenced (g ++ s) = g' ++ unfenced s := by
  induction hg with
  | nil => exact ⟨[], spaces_nil, fun _ => rfl⟩
  | @space c g hc _ ih =>
    obtain ⟨g', hg', heq⟩ := ih
    refine ⟨c :: g', List.forall_mem_cons.mpr ⟨hc, hg'⟩, fun s => ?_⟩
    rw [List.cons_append, unfenced_cons (noTag_of_ne (ne_open_of_space hc)), heq, List.cons_append]
  | @tag w g hw _ ih =>
    obtain ⟨g', hg', heq⟩ := ih
    refine ⟨' ' :: g', List.forall_mem_cons.mpr ⟨by decide, hg'⟩, fun s => ?_⟩
    rw [List.append_assoc, unfenced_tag hw, heq, List.cons_append]

theorem Rest.ne_open (h : Rest (x :: F)) : x ≠ '<' := by
  rintro rfl
  exact h.opening List.mem_cons_self

/-- The pass takes the tags out of the gaps of a nested one. -/
theorem Rest.unfenced_spelled (hF : Rest F) (h : Spelled (Loose Gap) t F) :
    ∃ t', Spelled (Loose Spaces) t' F ∧ ∀ s, unfenced (t ++ s) = t' ++ unfenced s := by
  induction h with
  | nil => exact ⟨[], .nil, fun _ => rfl⟩
  | @letter x g t F hg _ ih =>
    obtain ⟨t', ht', heq⟩ := ih hF.tail
    have hletter : ∀ s, unfenced (x :: (t ++ s)) = x :: (t' ++ unfenced s) := by
      intro s
      rw [unfenced_cons (noTag_of_ne hF.ne_open), heq]
    rcases hg with rfl | ⟨hx, hg⟩
    · exact ⟨[] ++ x :: t', .letter loose_nil ht', hletter⟩
    · obtain ⟨g', hg', hgap⟩ := unfenced_gap hg
      refine ⟨g' ++ x :: t', .letter (.inr ⟨hx, hg'⟩) ht', fun s => ?_⟩
      rw [List.append_assoc, List.cons_append, hgap, hletter, List.append_assoc, List.cons_append]

/-- Tags begin where the pass begins anew. -/
theorem unfenced_append_open : unfenced (a ++ '<' :: b) = unfenced a ++ unfenced ('<' :: b) := by
  induction hn : a.length using Nat.strong_induction_on generalizing a with
  | _ n ih =>
    subst hn
    rcases a with _ | ⟨x, a⟩
    · rfl
    by_cases htag : ∃ w, Tag w ∧ w <+: x :: a
    · obtain ⟨w, hw, a', ha⟩ := htag
      have hlt : a'.length < (x :: a).length := by
        obtain ⟨t, rfl, -⟩ := hw.exists_inner
        rw [← ha, List.length_append, List.length_cons]
        omega
      rw [← ha, List.append_assoc, unfenced_tag hw, unfenced_tag hw, ih _ hlt rfl, List.cons_append]
    · have hclear : NoTag (x :: a) := fun w hw hp => htag ⟨w, hw, hp⟩
      have hclear' : NoTag (x :: (a ++ '<' :: b)) := by
        intro w hw hp
        obtain ⟨t, rfl, -, ht⟩ := hw.exists_inner
        obtain ⟨rfl, htail⟩ := List.cons_prefix_cons.mp hp
        exact hclear _ hw
          (List.cons_prefix_cons.mpr ⟨rfl, (Phrase.prefix_append_cons ht.opening).mp htail⟩)
      rw [List.cons_append, unfenced_cons hclear', unfenced_cons hclear, ih _ (Nat.lt_succ_self _) rfl,
        List.cons_append]

/-- The first tag of a gap, if there is one. -/
theorem Gap.spaces_or (hg : Gap g) : Spaces g ∨ ∃ g₁ g₂, g = g₁ ++ '<' :: g₂ ∧ Spaces g₁ := by
  induction hg with
  | nil => exact .inl spaces_nil
  | @space c g hc _ ih =>
    rcases ih with hg | ⟨g₁, g₂, rfl, hg₁⟩
    · exact .inl (List.forall_mem_cons.mpr ⟨hc, hg⟩)
    · exact .inr ⟨c :: g₁, g₂, rfl, List.forall_mem_cons.mpr ⟨hc, hg₁⟩⟩
  | @tag w g hw _ _ =>
    obtain ⟨t, rfl, -⟩ := hw.exists_inner
    exact .inr ⟨[], t ++ g, rfl, spaces_nil⟩

theorem not_mem_of_spaces (hg : Spaces g) (hx : x ∈ ['<', '>']) : x ∉ g :=
  fun h => (not_special_of_space (hg x h)).2 hx

/-- Another tag begins before a nested one ends. -/
theorem Rest.spelled_or (hF : Rest F) (h : Spelled (Loose Gap) t F) :
    Spelled (Loose Spaces) t F ∨ ∃ t₁ t₂, t = t₁ ++ '<' :: t₂ ∧ '>' ∉ t₁ := by
  induction h with
  | nil => exact .inl .nil
  | @letter x g t F hg hspell ih =>
    have hgap : (∃ g₁ g₂, g = g₁ ++ '<' :: g₂ ∧ Spaces g₁) ∨ Loose Spaces x g := by
      rcases hg with rfl | ⟨hx, hg⟩
      · exact .inr loose_nil
      · exact hg.spaces_or.symm.imp_right fun h => .inr ⟨hx, h⟩
    rcases hgap with ⟨g₁, g₂, rfl, hg₁⟩ | hg
    · exact .inr ⟨g₁, g₂ ++ x :: t, by simp, not_mem_of_spaces hg₁ (by decide)⟩
    · rcases ih hF.tail with ht | ⟨t₁, t₂, rfl, ht₁⟩
      · exact .inl (.letter hg ht)
      · refine .inr ⟨g ++ x :: t₁, t₂, by simp, ?_⟩
        have hx : x ≠ '>' := by
          rintro rfl
          obtain rfl := hF.eq_nil_of_close
          generalize hnil : t₁ ++ '<' :: t₂ = t at hspell
          cases hspell
          exact absurd hnil (by simp)
        have hspaces := spaces_of_or (hg.imp_right And.right)
        intro h
        rcases List.mem_append.mp h with h | h
        · exact not_mem_of_spaces hspaces (by decide) h
        · rcases List.mem_cons.mp h with h | h
          · exact hx h.symm
          · exact ht₁ h

/-- **The pass does not see a nested tag.** -/
theorem Nested.exists_spelled (h : Nested a) : ∃ F t, a = '<' :: t ∧ Fence ('<' :: F) ∧ Rest F ∧
    Spelled (Loose Gap) t F ∧ ∀ b, NoTag ('<' :: (t ++ b)) := by
  obtain ⟨⟨F, hF, hspell⟩, hnot⟩ := h
  obtain ⟨F, rfl, -, hrest⟩ := hF.exists_rest
  rcases hspell with _ | @⟨_, g, t, _, hg, hspell⟩
  obtain rfl := eq_nil_of_open hg
  refine ⟨F, t, rfl, hF, hrest, hspell, fun b w hw hp => ?_⟩
  rcases hrest.spelled_or hspell with ht | ⟨t₁, t₂, rfl, ht₁⟩
  · exact hnot ⟨_, hF, .letter loose_nil ht⟩
  · obtain ⟨u, rfl, hclose, hu⟩ := hw.exists_inner
    obtain ⟨-, hp⟩ := List.cons_prefix_cons.mp hp
    rw [List.append_assoc, List.cons_append, Phrase.prefix_append_cons hu.opening] at hp
    exact ht₁ (hp.subset hclose)

/-! ### White space -/

theorem collapsed_append (hx : ¬ isSpace x = true) :
    collapsed (a ++ x :: b) = collapsed a ++ x :: collapsed b := by
  induction hn : a.length using Nat.strong_induction_on generalizing a with
  | _ n ih =>
    subst hn
    rcases a with _ | ⟨y, a⟩
    · exact collapsed_cons hx
    by_cases hy : isSpace y = true
    · have hlt : (a.dropWhile isSpace).length < (y :: a).length :=
        Nat.lt_succ_of_le (List.dropWhile_suffix _).length_le
      have hdrop : (a ++ x :: b).dropWhile isSpace = a.dropWhile isSpace ++ x :: b := by
        rw [List.dropWhile_append]
        split
        · next h =>
          rw [List.isEmpty_iff.mp h, List.dropWhile_cons_of_neg hx, List.nil_append]
        · rfl
      rw [List.cons_append, collapsed_space hy, collapsed_space hy, hdrop, ih _ hlt rfl,
        List.cons_append]
    · rw [List.cons_append, collapsed_cons hy, collapsed_cons hy, ih _ (Nat.lt_succ_self _) rfl,
        List.cons_append]

theorem collapsed_spaces (hg : Spaces g) (hx : ¬ isSpace x = true) :
    ∃ g', Spaces g' ∧ ∀ s, collapsed (g ++ x :: s) = g' ++ x :: collapsed s := by
  refine ⟨collapsed g, ?_, fun s => collapsed_append hx⟩
  rcases g with _ | ⟨y, g⟩
  · exact spaces_nil
  · obtain ⟨hy, hg⟩ := List.forall_mem_cons.mp hg
    rw [collapsed_space hy, List.dropWhile_eq_nil_iff.mpr hg]
    exact List.forall_mem_singleton.mpr (by decide)

theorem Rest.collapsed_spelled (hF : Rest F) (h : Spelled (Loose Spaces) t F) :
    ∃ t', Spelled (Loose Spaces) t' F ∧ ∀ s, collapsed (t ++ s) = t' ++ collapsed s := by
  induction h with
  | nil => exact ⟨[], .nil, fun _ => rfl⟩
  | @letter x g t F hg _ ih =>
    obtain ⟨t', ht', heq⟩ := ih hF.tail
    have hx := hF.solid x List.mem_cons_self
    rcases hg with rfl | ⟨hloose, hg⟩
    · refine ⟨[] ++ x :: t', .letter loose_nil ht', fun s => ?_⟩
      rw [List.nil_append, List.cons_append, collapsed_cons hx, heq]
      rfl
    · obtain ⟨g', hg', hgap⟩ := collapsed_spaces hg hx
      refine ⟨g' ++ x :: t', .letter (.inr ⟨hloose, hg'⟩) ht', fun s => ?_⟩
      rw [List.append_assoc, List.cons_append, hgap, heq, List.append_assoc, List.cons_append]

/-- What is made of a review, but for the white space at its ends. -/
def blanked (s : List Char) : List Char := collapsed (unfenced s)

/-- **A nested tag becomes a tag.** -/
theorem Nested.blanked_append (h : Nested t) :
    ∃ w, Tag w ∧ ∀ a b, blanked (a ++ (t ++ b)) = blanked a ++ (w ++ blanked b) := by
  obtain ⟨F, t, rfl, hF, hrest, hspell, hclear⟩ := h.exists_spelled
  obtain ⟨u, hu, hunfenced⟩ := hrest.unfenced_spelled hspell
  obtain ⟨v, hv, hcollapsed⟩ := hrest.collapsed_spelled hu
  refine ⟨'<' :: v, ⟨_, hF, .letter loose_nil hv⟩, fun a b => ?_⟩
  unfold blanked
  rw [List.cons_append, unfenced_append_open, unfenced_cons (hclear b), hunfenced,
    collapsed_append (by decide), hcollapsed, List.cons_append]

/-! ### From what is made of a review to the review -/

theorem dropWhile_unfenced (s : List Char) :
    ∃ g s', s = g ++ s' ∧ Gap g ∧ (unfenced s).dropWhile isSpace = unfenced s' := by
  induction hn : s.length using Nat.strong_induction_on generalizing s with
  | _ n ih =>
    subst hn
    rcases s with _ | ⟨x, s⟩
    · exact ⟨[], [], rfl, .nil, rfl⟩
    by_cases htag : ∃ w, Tag w ∧ w <+: x :: s
    · obtain ⟨w, hw, r, hr⟩ := htag
      have hlt : r.length < (x :: s).length := by
        obtain ⟨t, rfl, -⟩ := hw.exists_inner
        rw [← hr, List.length_append, List.length_cons]
        omega
      obtain ⟨g, s', hs', hg, hdrop⟩ := ih _ hlt r rfl
      refine ⟨w ++ g, s', ?_, .tag hw hg, ?_⟩
      · rw [← hr, hs', List.append_assoc]
      · rw [← hr, unfenced_tag hw, List.dropWhile_cons_of_pos (by decide), hdrop]
    · have hclear : NoTag (x :: s) := fun w hw hp => htag ⟨w, hw, hp⟩
      rw [unfenced_cons hclear]
      by_cases hx : isSpace x = true
      · obtain ⟨g, s', hs', hg, hdrop⟩ := ih _ (Nat.lt_succ_self _) s rfl
        refine ⟨x :: g, s', by rw [hs', List.cons_append], .space hx hg, ?_⟩
        rw [List.dropWhile_cons_of_pos hx, hdrop]
      · refine ⟨[], x :: s, rfl, .nil, ?_⟩
        rw [List.dropWhile_cons_of_neg hx, unfenced_cons hclear]

/-- What the first character comes from. -/
theorem blanked_eq_cons (h : blanked s = x :: t) :
    (¬ isSpace x = true ∧ NoTag s ∧ ∃ s', s = x :: s' ∧ blanked s' = t) ∨
      (x = ' ' ∧ ∃ g s', s = g ++ s' ∧ Gap g ∧ blanked s' = t) := by
  unfold blanked at h ⊢
  rcases s with _ | ⟨y, s⟩
  · cases h
  by_cases htag : ∃ w, Tag w ∧ w <+: y :: s
  · obtain ⟨w, hw, r, hr⟩ := htag
    obtain ⟨g, s', rfl, hg, hdrop⟩ := dropWhile_unfenced r
    rw [← hr, unfenced_tag hw, collapsed_space (by decide), hdrop] at h
    obtain ⟨rfl, rfl⟩ := List.cons.inj h
    exact .inr ⟨rfl, w ++ g, s', by rw [← hr, List.append_assoc], .tag hw hg, rfl⟩
  · have hclear : NoTag (y :: s) := fun w hw hp => htag ⟨w, hw, hp⟩
    rw [unfenced_cons hclear] at h
    by_cases hy : isSpace y = true
    · obtain ⟨g, s', rfl, hg, hdrop⟩ := dropWhile_unfenced s
      rw [collapsed_space hy, hdrop] at h
      obtain ⟨rfl, rfl⟩ := List.cons.inj h
      exact .inr ⟨rfl, y :: g, s', rfl, .space hy hg, rfl⟩
    · rw [collapsed_cons hy] at h
      obtain ⟨rfl, rfl⟩ := List.cons.inj h
      exact .inl ⟨hy, hclear, s, rfl, rfl⟩

theorem Gap.append (hu : Gap u) (hg : Gap g) : Gap (u ++ g) := by
  induction hu with
  | nil => exact hg
  | space hc _ ih => exact .space hc ih
  | tag hw _ ih =>
    rw [List.append_assoc]
    exact .tag hw ih

theorem exists_gap_of_spaces (hg : Spaces g) (h : blanked s = g ++ t) :
    ∃ g' s', s = g' ++ s' ∧ Gap g' ∧ blanked s' = t := by
  induction g generalizing s with
  | nil => exact ⟨[], s, rfl, .nil, h⟩
  | cons y g ih =>
    obtain ⟨hy, hg⟩ := List.forall_mem_cons.mp hg
    rcases blanked_eq_cons h with ⟨hsolid, -⟩ | ⟨-, u, s', rfl, hu, hs'⟩
    · exact absurd hy hsolid
    · obtain ⟨g', s', rfl, hg', hs'⟩ := ih hg hs'
      exact ⟨u ++ g', s', (List.append_assoc _ _ _).symm, hu.append hg', hs'⟩

theorem exists_append_of_blanked (h : blanked s = a ++ t) :
    ∃ p q, s = p ++ q ∧ blanked q = t := by
  induction a generalizing s with
  | nil => exact ⟨[], s, rfl, h⟩
  | cons y a ih =>
    rcases blanked_eq_cons h with ⟨-, -, s', rfl, hs'⟩ | ⟨-, g, s', rfl, -, hs'⟩
    · obtain ⟨p, q, rfl, hq⟩ := ih hs'
      exact ⟨y :: p, q, rfl, hq⟩
    · obtain ⟨p, q, rfl, hq⟩ := ih hs'
      exact ⟨g ++ p, q, (List.append_assoc _ _ _).symm, hq⟩

/-- The letters of a tag were there, perhaps with tags between them. -/
theorem Rest.exists_spelled (hF : Rest F) (ht : Spelled (Loose Spaces) t F)
    (h : blanked s = t ++ b) : ∃ t' q, s = t' ++ q ∧ Spelled (Loose Gap) t' F ∧ blanked q = b := by
  induction ht generalizing s with
  | nil => exact ⟨[], s, rfl, .nil, h⟩
  | @letter x g t F hg _ ih =>
    have hletter : ∀ s, blanked s = x :: (t ++ b) →
        ∃ t' q, s = x :: (t' ++ q) ∧ Spelled (Loose Gap) t' F ∧ blanked q = b := by
      intro s hs
      rcases blanked_eq_cons hs with ⟨-, -, s', rfl, hs'⟩ | ⟨rfl, -⟩
      · obtain ⟨t', q, rfl, ht', hq⟩ := ih hF.tail hs'
        exact ⟨t', q, rfl, ht', hq⟩
      · exact absurd (by decide) (hF.solid ' ' List.mem_cons_self)
    rw [List.append_assoc, List.cons_append] at h
    rcases hg with rfl | ⟨hloose, hg⟩
    · obtain ⟨t', q, rfl, ht', hq⟩ := hletter s h
      exact ⟨[] ++ x :: t', q, rfl, .letter loose_nil ht', hq⟩
    · obtain ⟨g', s', rfl, hg', hs'⟩ := exists_gap_of_spaces hg h
      obtain ⟨t', q, rfl, ht', hq⟩ := hletter s' hs'
      exact ⟨g' ++ x :: t', q, by simp, .letter (.inr ⟨hloose, hg'⟩) ht', hq⟩

/-- **A tag that is there afterwards was nested.** -/
theorem Tag.exists_nested (hw : Tag w) (h : blanked s = a ++ (w ++ b)) :
    ∃ p n q, s = p ++ (n ++ q) ∧ Nested n ∧ blanked (p ++ n) = a ++ w := by
  obtain ⟨F, hF, hspell⟩ := hw
  obtain ⟨F, rfl, -, hrest⟩ := hF.exists_rest
  rcases hspell with _ | @⟨_, g, t, _, hg, hspell⟩
  obtain rfl := eq_nil_of_open hg
  obtain ⟨p, s', rfl, hs'⟩ := exists_append_of_blanked h
  rcases blanked_eq_cons hs' with ⟨-, hclear, s', rfl, htail⟩ | ⟨hx, -⟩
  · obtain ⟨t', q, rfl, ht', hq⟩ := hrest.exists_spelled hspell htail
    have hnested : Nested ('<' :: t') :=
      ⟨⟨_, hF, .letter loose_nil ht'⟩, fun htag => hclear _ htag (List.prefix_append ('<' :: t') q)⟩
    refine ⟨p, '<' :: t', q, rfl, hnested, ?_⟩
    obtain ⟨v, -, hv⟩ := hnested.blanked_append
    have hwhole := (hv p q).symm.trans h
    have hcut := hv p []
    rw [List.append_nil] at hcut
    rw [hq, ← List.append_assoc, ← List.append_assoc] at hwhole
    rw [hcut, show blanked [] = [] from rfl, List.append_nil]
    exact List.append_cancel_right hwhole
  · exact absurd hx (by decide)

end

end Assistant.Generation
