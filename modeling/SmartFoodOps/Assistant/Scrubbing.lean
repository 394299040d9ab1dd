/-
Nothing that is struck out of a message is left in it.

Each of the patterns begins and ends where a class of characters does: a card number where digits
do, the others where words do.  What is put in place of a match is in brackets, so that the
neighbours of what stays are what they were, or were no part of the same word.

* `Classes` — what the patterns need to know of word characters and digits;
* `splits_card`, `carries_card`, … — where the matches of each pattern end, and that a match
  beside brackets was there before;
* `redaction` — the text, with how often each pattern was found;
* `redact_complete` — no pattern matches in a redacted text, and redacting it again changes nothing.
-/
import SmartFoodOps.Assistant.Router
import SmartFoodOps.Lib.Striking

open Regex

namespace Assistant.Generation

/-- What is known of word characters and of digits. -/
structure Classes (isWord isDigit : Char → Bool) : Prop where
  word_of_digit : ∀ c, isDigit c = true → isWord c = true
  punctuation : ∀ c ∈ [' ', '[', ']', '+', '-', '.'], ¬ isWord c = true
  not_digit_of_letter : ∀ c ∈ "abcdefghijklmnopqrstuvwxyz".toList, ¬ isDigit c = true

/-- What stands for a match. -/
def label (kind : String) : List Char := ("[" ++ kind ++ " redacted]").toList

section

variable {isWord isDigit : Char → Bool} {b w a s t u v : List Char} {kind : String}

theorem bracketed_label : Bracketed '[' ']' (label kind) := by
  have hlabel : label kind = '[' :: (kind.toList ++ " redacted".toList) ++ [']'] := by
    simp [label, String.toList_append]
  rw [hlabel]
  exact ⟨⟨_, rfl⟩, ⟨_, rfl⟩⟩

/-- The four kinds. -/
def kinds : List String := ["card", "email", "address", "phone"]

theorem Classes.not_digit (h : Classes isWord isDigit) {c : Char}
    (hc : ¬ isWord c = true) : ¬ isDigit c = true := fun hd => hc (h.word_of_digit c hd)

/-- No label has a digit in it. -/
theorem Classes.label_digit (h : Classes isWord isDigit) (hkind : kind ∈ kinds) :
    ∀ c ∈ label kind, ¬ isDigit c = true := by
  have hall : ∀ kind ∈ kinds, ∀ c ∈ label kind,
      c ∈ "abcdefghijklmnopqrstuvwxyz".toList ∨ c ∈ [' ', '[', ']', '+', '-', '.'] :=
    forall₂_of_all (by decide)
  intro c hc
  rcases hall kind hkind c hc with hletter | hplain
  · exact h.not_digit_of_letter c hletter
  · exact h.not_digit (h.punctuation c hplain)

theorem at_not_mem_label (hkind : kind ∈ kinds) : '@' ∉ label kind := by
  have hall : ∀ kind ∈ kinds, '@' ∉ label kind := by decide
  exact hall kind hkind

/-- Neither of the brackets. -/
def NoBracket (c : Char) : Prop := c ≠ '[' ∧ c ≠ ']'

theorem foreign_of (hover : ∀ c ∈ w, NoBracket c) {l : List Char} {x : Char} (hx : x ∈ w)
    (hl : x ∉ l) : Foreign '[' ']' l w where
  opening h := (hover _ h).1 rfl
  closing h := (hover _ h).2 rfl
  other := ⟨x, hx, hl⟩

theorem Classes.noBracket (h : Classes isWord isDigit) {c : Char} (hc : isWord c = true) :
    NoBracket c := by
  constructor
  · rintro rfl
    exact h.punctuation _ (by decide) hc
  · rintro rfl
    exact h.punctuation _ (by decide) hc

theorem Classes.noBracket_or (h : Classes isWord isDigit) {c : Char} {l : List Char}
    (hl : '[' ∉ l ∧ ']' ∉ l) (hc : (isWord c || l.contains c) = true) : NoBracket c := by
  rcases Bool.or_eq_true_iff.mp hc with hc | hc
  · exact h.noBracket hc
  · rw [List.contains_iff_mem] at hc
    constructor
    · rintro rfl
      exact hl.1 hc
    · rintro rfl
      exact hl.2 hc

theorem noBracket_of_space {c : Char} (hc : isSpace c = true) : NoBracket c := by
  constructor
  · rintro rfl
    exact absurd hc (by decide)
  · rintro rfl
    exact absurd hc (by decide)

/-! ### Cards -/

/-- A digit, and perhaps what separates it from the next. -/
def Grouped (isDigit : Char → Bool) (u : List Char) : Prop :=
  ∃ d s, u = d :: s ∧ isDigit d = true ∧ (s = [] ∨ s = [' '] ∨ s = ['-'])

theorem matches_grouped : Matches (.seq (.char isDigit) (.opt (.char fun c => c = ' ' || c = '-')))
    b u a ↔ Grouped isDigit u := by
  constructor
  · rintro ⟨_, _, rfl, ⟨d, hd, rfl⟩, (⟨c, hc, rfl⟩ | rfl)⟩
    · refine ⟨d, [c], rfl, hd, .inr ?_⟩
      simpa using hc
    · exact ⟨d, [], rfl, hd, .inl rfl⟩
  · rintro ⟨d, s, rfl, hd, hs⟩
    refine ⟨[d], s, rfl, ⟨d, hd, rfl⟩, ?_⟩
    rcases hs with rfl | rfl | rfl
    · exact .inr rfl
    · exact .inl ⟨' ', rfl, rfl⟩
    · exact .inl ⟨'-', rfl, rfl⟩

theorem matches_card : Matches (card isDigit) b w a ↔ b.head?.any isDigit = false ∧
    (∃ ws : List (List Char), 13 ≤ ws.length ∧ ws.length ≤ 19 ∧ (∀ u ∈ ws, Grouped isDigit u) ∧
      w = ws.flatten) ∧ a.head?.any isDigit = false := by
  have hplain : Plain (.seq (.char isDigit) (.opt (.char fun c => c = ' ' || c = '-'))) :=
    ⟨trivial, trivial, trivial⟩
  have hbody : ∀ u, Matches (.between (.seq (.char isDigit)
      (.opt (.char fun c => c = ' ' || c = '-'))) 13 19) [] u [] ↔
      ∃ ws : List (List Char), 13 ≤ ws.length ∧ ws.length ≤ 19 ∧ (∀ u ∈ ws, Grouped isDigit u) ∧
        u = ws.flatten := by
    intro u
    rw [matches_between hplain (by decide)]
    simp only [matches_grouped]
  constructor
  · rintro ⟨_, w, rfl, ⟨rfl, hb⟩, u, v, rfl, hu, _, v, rfl, ⟨rfl, ha⟩, rfl⟩
    refine ⟨by simpa using hb, (hbody _).mp ?_, by simpa using ha⟩
    rw [List.nil_append, List.append_nil, List.append_nil]
    exact (plain_between hplain 13 19).matches hu
  · rintro ⟨hb, hw, ha⟩
    refine ⟨[], w, rfl, ⟨rfl, by simpa using hb⟩, w, [], by simp, ?_, [], [], rfl,
      ⟨rfl, by simpa using ha⟩, rfl⟩
    exact (plain_between hplain 13 19).matches ((hbody w).mpr hw)

theorem splits_card : Splits isDigit (card isDigit) := by
  intro b m a hm
  obtain ⟨hb, -, ha⟩ := matches_card.mp hm
  refine ⟨fun h => ?_, fun h => ?_⟩
  · rw [hb] at h
    exact absurd h.1 (by decide)
  · rw [ha] at h
    exact absurd h.2 (by decide)

theorem Classes.foreign_card (h : Classes isWord isDigit) (hkind : kind ∈ kinds)
    (hw : Matches (card isDigit) b w a) : Foreign '[' ']' (label kind) w := by
  obtain ⟨-, ⟨ws, hlen, -, hws, rfl⟩, -⟩ := matches_card.mp hw
  obtain ⟨u, ws, rfl⟩ := List.exists_cons_of_length_pos (Nat.lt_of_lt_of_le (by decide) hlen)
  have hover : ∀ c ∈ (u :: ws).flatten, NoBracket c := by
    intro c hc
    obtain ⟨u, hu, hcu⟩ := List.mem_flatten.mp hc
    obtain ⟨d, s, rfl, hd, hs⟩ := hws u hu
    rcases List.mem_cons.mp hcu with rfl | hcs
    · exact h.noBracket (h.word_of_digit _ hd)
    · rcases hs with rfl | rfl | rfl
      · exact absurd hcs List.not_mem_nil
      · rw [List.mem_singleton.mp hcs]
        exact ⟨by decide, by decide⟩
      · rw [List.mem_singleton.mp hcs]
        exact ⟨by decide, by decide⟩
  obtain ⟨d, s, rfl, hd, -⟩ := hws u List.mem_cons_self
  exact foreign_of hover List.mem_cons_self fun hl => h.label_digit hkind d hl hd

theorem Classes.carries_card (h : Classes isWord isDigit) :
    Carries isDigit '[' ']' (card isDigit) := by
  have hopen : ¬ isDigit '[' = true := h.not_digit (h.punctuation _ (by decide))
  have hclose : ¬ isDigit ']' = true := h.not_digit (h.punctuation _ (by decide))
  intro b w a b' a' hw hleft hright
  obtain ⟨hb, ⟨ws, hmin, hmax, hws, rfl⟩, ha⟩ := matches_card.mp hw
  rcases List.eq_nil_or_concat ws with rfl | ⟨ws, u, rfl⟩
  · exact absurd hmin (by decide)
  rw [List.concat_eq_append] at hmin hmax hws hw hleft hright ⊢
  have hb' : b'.head?.any isDigit = false := by
    rw [hleft.any_eq hclose, hb]
    obtain ⟨v, vs, hv⟩ := List.exists_cons_of_ne_nil (show ws ++ [u] ≠ [] by simp)
    rw [hv] at hws ⊢
    obtain ⟨d, s, rfl, hd, -⟩ := hws v List.mem_cons_self
    exact hd
  obtain ⟨hinit, hu⟩ := List.forall_mem_append.mp hws
  obtain ⟨d, s, rfl, hd, hs⟩ := hu u (List.mem_singleton_self u)
  -- what separates the last digit from what follows is not needed
  have hshort : Matches (card isDigit) b' ((ws ++ [[d]]).flatten) (s ++ a') := by
    refine matches_card.mpr ⟨hb', ⟨ws ++ [[d]], ?_, ?_, ?_, rfl⟩, ?_⟩
    · simpa using hmin
    · simpa using hmax
    · exact List.forall_mem_append.mpr
        ⟨hinit, List.forall_mem_singleton.mpr ⟨d, [], rfl, hd, .inl rfl⟩⟩
    · rcases hs with rfl | rfl | rfl
      · rw [List.nil_append, hright.any_eq hopen, ha]
        simpa using hd
      · exact Bool.eq_false_iff.mpr (h.not_digit (h.punctuation ' ' (by decide)))
      · exact Bool.eq_false_iff.mpr (h.not_digit (h.punctuation '-' (by decide)))
  exact ⟨[], (ws ++ [[d]]).flatten, s, by simp, hshort⟩

/-! ### Addresses of mail -/

/-- What stands between the boundaries of `email`. -/
def mailbox (isWord : Char → Bool) : List Regex :=
  [.plus (.char fun c => isWord c || ['.', '+', '-'].contains c), .lit '@',
    .plus (.char fun c => isWord c || c = '-'), .lit '.',
    .plus (.char fun c => isWord c || ['.', '-'].contains c)]

theorem matches_email : Matches (email isWord) b w a ↔
    b.head?.any isWord ≠ (w ++ a).head?.any isWord ∧ Matches (seqs (mailbox isWord)) [] w [] ∧
      (w.reverse ++ b).head?.any isWord ≠ a.head?.any isWord := by
  have hplain : Plain (seqs (mailbox isWord)) := by simp [mailbox, seqs, plus, lit, Plain]
  refine (matches_looks hplain (show Plain (seqs []) from trivial)).trans ?_
  constructor
  · rintro ⟨u, v, rfl, hb, hu, ha, rfl⟩
    rw [List.append_nil]
    exact ⟨by simpa using hb, hu, by simpa using ha⟩
  · rintro ⟨hb, hw, ha⟩
    exact ⟨w, [], (List.append_nil w).symm, by simpa using hb, hw, by simpa using ha, rfl⟩

theorem splits_email : Splits isWord (email isWord) := by
  intro b m a hm
  obtain ⟨hb, -, ha⟩ := matches_email.mp hm
  exact ⟨fun h => hb (h.1.trans h.2.symm), fun h => ha (h.1.trans h.2.symm)⟩

theorem Classes.foreign_email (h : Classes isWord isDigit) (hkind : kind ∈ kinds)
    (hw : Matches (email isWord) b w a) : Foreign '[' ']' (label kind) w := by
  obtain ⟨-, hw, -⟩ := matches_email.mp hw
  have hover : Over NoBracket (seqs (mailbox isWord)) := by
    refine over_seqs ?_
    have hlist : ∀ l : List Char, '[' ∉ l ∧ ']' ∉ l →
        Over NoBracket (.plus (.char fun c => isWord c || l.contains c)) := by
      intro l hl
      exact ⟨fun c hc => h.noBracket_or hl hc, fun c hc => h.noBracket_or hl hc⟩
    have hlit : ∀ c, NoBracket c → Over NoBracket (lit c) := by
      intro c hc x hx
      rw [of_decide_eq_true hx]
      exact hc
    refine List.forall_mem_cons.mpr ⟨hlist _ (by decide), List.forall_mem_cons.mpr
      ⟨hlit '@' ⟨by decide, by decide⟩, List.forall_mem_cons.mpr ⟨?_, List.forall_mem_cons.mpr
        ⟨hlit '.' ⟨by decide, by decide⟩, List.forall_mem_singleton.mpr (hlist _ (by decide))⟩⟩⟩⟩
    have hhyphen : ∀ c, (isWord c || decide (c = '-')) = true → NoBracket c := by
      intro c hc
      refine h.noBracket_or (l := ['-']) (by decide) ?_
      simpa using hc
    exact ⟨hhyphen, hhyphen⟩
  have hat : '@' ∈ w := by
    obtain ⟨u, _, rfl, -, _, v, rfl, ⟨x, hx, rfl⟩, -⟩ := hw
    rw [← of_decide_eq_true hx]
    simp
  exact foreign_of (hover.forall_mem hw) hat (at_not_mem_label hkind)

theorem head?_append_eq {α : Type*} {w a a' : List α} (hw : w ≠ []) :
    (w ++ a).head? = (w ++ a').head? := by
  obtain ⟨x, w, rfl⟩ := List.exists_cons_of_ne_nil hw
  rfl

theorem Classes.carries_email (h : Classes isWord isDigit) :
    Carries isWord '[' ']' (email isWord) := by
  intro b w a b' a' hm hleft hright
  have hnil : w ≠ [] := (h.foreign_email (show "card" ∈ kinds by decide) hm).ne_nil
  have hnil' : w.reverse ≠ [] := by simpa using hnil
  obtain ⟨hb, hw, ha⟩ := matches_email.mp hm
  refine ⟨[], w, [], (List.append_nil w).symm, matches_email.mpr ⟨?_, hw, ?_⟩⟩
  · refine hleft.any_ne (h.punctuation _ (by decide)) ?_
    rw [head?_append_eq hnil]
    exact hb
  · refine (hright.any_ne (h.punctuation _ (by decide)) ?_).symm
    rw [head?_append_eq hnil']
    exact ha.symm

/-! ### Streets -/

/-- What stands between the boundaries of `address`. -/
def streetLine (isWord isDigit : Char → Bool) : List Regex :=
  [.between (.char isDigit) 1 5, .opt letter, Pattern.spaces,
    .upTo (.seq (.plus (.char fun c => isWord c || ['\'', '-'].contains c)) Pattern.spaces) 3,
    .oneOf (["street", "st", "road", "rd", "avenue", "ave", "lane", "ln", "drive", "dr",
      "boulevard", "blvd", "way", "close", "court", "ct"].map Pattern.text)]

theorem plain_streetLine : Plain (seqs (streetLine isWord isDigit)) := by
  have hspaces : Plain Pattern.spaces := ⟨trivial, trivial⟩
  have hphrase : Plain (.seq (.plus (.char fun c => isWord c || ['\'', '-'].contains c))
      Pattern.spaces) := ⟨⟨trivial, trivial⟩, hspaces⟩
  refine plain_seqs (List.forall_mem_cons.mpr ⟨plain_between plain_char 1 5, List.forall_mem_cons.mpr
    ⟨⟨trivial, trivial⟩, List.forall_mem_cons.mpr ⟨hspaces, List.forall_mem_cons.mpr
      ⟨plain_upTo hphrase 3, List.forall_mem_singleton.mpr ?_⟩⟩⟩⟩)
  refine plain_oneOf (by simp) fun r hr => ?_
  obtain ⟨s, -, rfl⟩ := List.mem_map.mp hr
  exact plain_word _ _

/-- A match, and a full stop that may stand behind it. -/
theorem matches_address : Matches (address isWord isDigit) b w a ↔
    ∃ u v, w = u ++ v ∧ b.head?.any isWord ≠ (w ++ a).head?.any isWord ∧
      Matches (seqs (streetLine isWord isDigit)) [] u [] ∧
      (u.reverse ++ b).head?.any isWord ≠ (v ++ a).head?.any isWord ∧ (v = [] ∨ v = ['.']) := by
  refine (matches_looks plain_streetLine (show Plain (seqs [.opt (.lit '.')]) from
    ⟨⟨trivial, trivial⟩, trivial⟩)).trans ?_
  have hstop : ∀ v, Matches (seqs [.opt (.lit '.')]) [] v [] ↔ v = [] ∨ v = ['.'] := by
    intro v
    constructor
    · rintro ⟨_, _, rfl, (⟨x, hx, rfl⟩ | rfl), rfl⟩
      · rw [← of_decide_eq_true hx]
        exact .inr rfl
      · exact .inl rfl
    · rintro (rfl | rfl)
      · exact ⟨[], [], rfl, .inr rfl, rfl⟩
      · exact ⟨['.'], [], rfl, .inl ⟨'.', rfl, rfl⟩, rfl⟩
  simp only [hstop]
  refine exists_congr fun u => exists_congr fun v => and_congr_right fun hw => ?_
  subst hw
  simp [← List.append_assoc]

theorem Classes.splits_address (h : Classes isWord isDigit) :
    Splits isWord (address isWord isDigit) := by
  intro b m a hm
  obtain ⟨u, v, rfl, hb, -, ha, hv⟩ := matches_address.mp hm
  refine ⟨fun hw => hb (hw.1.trans hw.2.symm), fun hw => ?_⟩
  rcases hv with rfl | rfl
  · rw [List.append_nil] at hw
    exact ha (hw.1.trans hw.2.symm)
  · rw [List.reverse_append] at hw
    exact h.punctuation '.' (by decide) hw.1

theorem exists_digit_of_streetLine (hw : Matches (seqs (streetLine isWord isDigit)) [] w []) :
    ∃ d ∈ w, isDigit d = true := by
  obtain ⟨u, v, rfl, hu, -⟩ := hw
  obtain ⟨ws, hlen, -, hws, rfl⟩ := (matches_between plain_char (by decide)).mp hu
  obtain ⟨u, ws, rfl⟩ := List.exists_cons_of_length_pos hlen
  obtain ⟨d, hd, rfl⟩ := hws u List.mem_cons_self
  exact ⟨d, by simp, hd⟩

theorem noBracket_of_sameLetter {x c : Char} (hx : x ∈ "abcdefghijklmnopqrstuvwxyz".toList)
    (hc : sameLetter x c = true) : NoBracket c := by
  have hall : ∀ x ∈ "abcdefghijklmnopqrstuvwxyz".toList,
      sameLetter x '[' = false ∧ sameLetter x ']' = false := forall_of_all (by decide)
  obtain ⟨hopen, hclose⟩ := hall x hx
  constructor
  · rintro rfl
    rw [hopen] at hc
    cases hc
  · rintro rfl
    rw [hclose] at hc
    cases hc

theorem Classes.foreign_address (h : Classes isWord isDigit) (hkind : kind ∈ kinds)
    (hw : Matches (address isWord isDigit) b w a) : Foreign '[' ']' (label kind) w := by
  obtain ⟨u, v, rfl, -, hu, -, hv⟩ := matches_address.mp hw
  have hspaces : Over NoBracket Pattern.spaces :=
    ⟨fun c hc => noBracket_of_space hc, fun c hc => noBracket_of_space hc⟩
  have hdigit : Over NoBracket (.char isDigit) := fun c hc => h.noBracket (h.word_of_digit c hc)
  have hletter : Over NoBracket letter := by
    intro c hc
    obtain ⟨x, hx, hsame⟩ := List.any_eq_true.mp hc
    exact noBracket_of_sameLetter hx hsame
  have hwords : Over NoBracket (.seq (.plus (.char fun c => isWord c || ['\'', '-'].contains c))
      Pattern.spaces) :=
    ⟨⟨fun c hc => h.noBracket_or (by decide) hc, fun c hc => h.noBracket_or (by decide) hc⟩, hspaces⟩
  have hkinds : Over NoBracket (.oneOf (["street", "st", "road", "rd", "avenue", "ave", "lane",
      "ln", "drive", "dr", "boulevard", "blvd", "way", "close", "court", "ct"].map
        Pattern.text)) := by
    have hletters : ∀ s ∈ ["street", "st", "road", "rd", "avenue", "ave", "lane", "ln", "drive",
        "dr", "boulevard", "blvd", "way", "close", "court", "ct"], ∀ x ∈ s.toList,
          x ∈ "abcdefghijklmnopqrstuvwxyz".toList := forall₂_of_all (by decide)
    refine over_oneOf fun r hr => ?_
    obtain ⟨s, hs, rfl⟩ := List.mem_map.mp hr
    exact over_word fun x hx y hy => noBracket_of_sameLetter (hletters s hs x hx) hy
  have hover : Over NoBracket (seqs (streetLine isWord isDigit)) :=
    ⟨over_between hdigit 1 5, ⟨hletter, trivial⟩, hspaces, over_upTo hwords 3,
      hkinds, trivial⟩
  obtain ⟨d, hd, hdig⟩ := exists_digit_of_streetLine hu
  refine foreign_of (List.forall_mem_append.mpr ⟨hover.forall_mem hu, ?_⟩)
    (List.mem_append_left v hd) fun hl => h.label_digit hkind d hl hdig
  rcases hv with rfl | rfl
  · exact List.forall_mem_nil _
  · exact List.forall_mem_singleton.mpr ⟨by decide, by decide⟩

theorem Classes.carries_address (h : Classes isWord isDigit) :
    Carries isWord '[' ']' (address isWord isDigit) := by
  intro b w a b' a' hm hleft hright
  have hnil : w ≠ [] := (h.foreign_address (show "card" ∈ kinds by decide) hm).ne_nil
  obtain ⟨u, v, rfl, hb, hu, ha, hv⟩ := matches_address.mp hm
  have hunil : u.reverse ≠ [] := by
    obtain ⟨d, hd, -⟩ := exists_digit_of_streetLine hu
    simpa using List.ne_nil_of_mem hd
  refine ⟨[], u ++ v, [], by simp, matches_address.mpr ⟨u, v, rfl, ?_, hu, ?_, hv⟩⟩
  · refine hleft.any_ne (h.punctuation _ (by decide)) ?_
    rw [head?_append_eq hnil]
    exact hb
  · rcases hv with rfl | rfl
    · rw [List.append_nil] at hright
      refine (hright.any_ne (h.punctuation _ (by decide)) ?_).symm
      rw [head?_append_eq hunil]
      exact ha.symm
    · -- the full stop follows in any case
      rw [head?_append_eq hunil]
      exact ha

/-! ### Telephones -/

/-- What `phone` is, but for a leading `+`. -/
def number (isDigit : Char → Bool) : List Regex :=
  [.char isDigit, .atLeast (.char fun c => isDigit c || isSpace c || ['(', ')', '.', '-'].contains c)
    7, .char isDigit]

theorem plain_number : Plain (seqs (number isDigit)) :=
  ⟨trivial, ⟨plain_times plain_char 7, trivial⟩, trivial, trivial⟩

theorem matches_phone : Matches (phone isWord isDigit) b w a ↔
    ∃ s u, w = s ++ u ∧ (s = [] ∨ s = ['+']) ∧ b.head?.any isWord = false ∧
      Matches (seqs (number isDigit)) [] u [] ∧ a.head?.any isWord = false := by
  have hplain : Plain (seqs (.opt (.lit '+') :: number isDigit)) :=
    ⟨⟨trivial, trivial⟩, plain_number⟩
  refine (matches_looks hplain (show Plain (seqs []) from trivial)).trans ?_
  constructor
  · rintro ⟨_, _, rfl, hb, ⟨s, u, rfl, hs, hu⟩, ha, rfl⟩
    refine ⟨s, u, List.append_nil _, ?_, by simpa using hb, plain_number.matches hu,
      by simpa using ha⟩
    rcases hs with ⟨x, hx, rfl⟩ | rfl
    · rw [← of_decide_eq_true hx]
      exact .inr rfl
    · exact .inl rfl
  · rintro ⟨s, u, rfl, hs, hb, hu, ha⟩
    refine ⟨s ++ u, [], (List.append_nil _).symm, by simpa using hb,
      ⟨s, u, rfl, ?_, plain_number.matches hu⟩, by simpa using ha, rfl⟩
    rcases hs with rfl | rfl
    · exact .inr rfl
    · exact .inl ⟨'+', rfl, rfl⟩

/-- It begins and ends with a digit. -/
theorem ends_of_number (hu : Matches (seqs (number isDigit)) [] u []) :
    ∃ d v e, u = d :: v ++ [e] ∧ isDigit d = true ∧ isDigit e = true := by
  obtain ⟨_, _, rfl, ⟨d, hd, rfl⟩, v, _, rfl, -, _, _, rfl, ⟨e, he, rfl⟩, rfl⟩ := hu
  exact ⟨d, v, e, rfl, hd, he⟩

theorem splits_phone : Splits isWord (phone isWord isDigit) := by
  intro b m a hm
  obtain ⟨-, -, -, -, hb, -, ha⟩ := matches_phone.mp hm
  refine ⟨fun h => ?_, fun h => ?_⟩
  · rw [hb] at h
    exact absurd h.1 (by decide)
  · rw [ha] at h
    exact absurd h.2 (by decide)

theorem Classes.foreign_phone (h : Classes isWord isDigit) (hkind : kind ∈ kinds)
    (hw : Matches (phone isWord isDigit) b w a) : Foreign '[' ']' (label kind) w := by
  obtain ⟨s, u, rfl, hs, -, hu, -⟩ := matches_phone.mp hw
  have hdigit : Over NoBracket (.char isDigit) := fun c hc => h.noBracket (h.word_of_digit c hc)
  have hinner : Over NoBracket
      (.char fun c => isDigit c || isSpace c || ['(', ')', '.', '-'].contains c) := by
    intro c hc
    replace hc : (isSpace c || (isDigit c || ['(', ')', '.', '-'].contains c)) = true := by
      rw [Bool.or_left_comm, ← Bool.or_assoc]
      exact hc
    rcases Bool.or_eq_true_iff.mp hc with hc | hc
    · exact noBracket_of_space hc
    · refine h.noBracket_or (l := ['(', ')', '.', '-']) (by decide) ?_
      rcases Bool.or_eq_true_iff.mp hc with hc | hc
      · rw [h.word_of_digit c hc]
        rfl
      · rw [hc, Bool.or_true]
  have hover : Over NoBracket (seqs (number isDigit)) :=
    ⟨hdigit, ⟨over_times hinner 7, hinner⟩, hdigit, trivial⟩
  have hsign : ∀ c ∈ s, NoBracket c := by
    rcases hs with rfl | rfl
    · exact List.forall_mem_nil _
    · exact List.forall_mem_singleton.mpr ⟨by decide, by decide⟩
  obtain ⟨d, v, e, rfl, hd, -⟩ := ends_of_number hu
  exact foreign_of (List.forall_mem_append.mpr ⟨hsign, hover.forall_mem hu⟩)
    (List.mem_append_right s List.mem_cons_self) fun hl => h.label_digit hkind d hl hd

theorem Classes.carries_phone (h : Classes isWord isDigit) :
    Carries isWord '[' ']' (phone isWord isDigit) := by
  intro b w a b' a' hm hleft hright
  obtain ⟨s, u, rfl, hs, hb, hu, ha⟩ := matches_phone.mp hm
  obtain ⟨d, v, e, rfl, hd, he⟩ := ends_of_number hu
  have ha' : a'.head?.any isWord = false := by
    rw [hright.any_eq (h.punctuation _ (by decide)), ha]
    simpa using h.word_of_digit e he
  refine ⟨s, d :: v ++ [e], [], by simp, matches_phone.mpr
    ⟨[], _, rfl, .inl rfl, ?_, hu, ha'⟩⟩
  rcases hs with rfl | rfl
  · show b'.head?.any isWord = false
    rw [hleft.any_eq (h.punctuation _ (by decide)), hb]
    exact h.word_of_digit d hd
  · -- a sign is no part of a word, and the number matches without it
    exact Bool.eq_false_iff.mpr (h.punctuation '+' (by decide))

/-! ### All of them -/

/-- A card number is struck out first, and no pattern makes one. -/
theorem Classes.passes_card (h : Classes isWord isDigit) (hkind : kind ∈ kinds) {r : Regex}
    (hr : Splits isDigit r) : Passes '[' ']' (label kind) (card isDigit) r :=
  ⟨fun _ _ _ hw => h.foreign_card hkind hw, isDigit, h.carries_card, hr⟩

theorem Classes.passes_email (h : Classes isWord isDigit) (hkind : kind ∈ kinds) {r : Regex}
    (hr : Splits isWord r) : Passes '[' ']' (label kind) (email isWord) r :=
  ⟨fun _ _ _ hw => h.foreign_email hkind hw, isWord, h.carries_email, hr⟩

theorem Classes.passes_address (h : Classes isWord isDigit) (hkind : kind ∈ kinds) {r : Regex}
    (hr : Splits isWord r) : Passes '[' ']' (label kind) (address isWord isDigit) r :=
  ⟨fun _ _ _ hw => h.foreign_address hkind hw, isWord, h.carries_address, hr⟩

theorem Classes.passes_phone (h : Classes isWord isDigit) (hkind : kind ∈ kinds) {r : Regex}
    (hr : Splits isWord r) : Passes '[' ']' (label kind) (phone isWord isDigit) r :=
  ⟨fun _ _ _ hw => h.foreign_phone hkind hw, isWord, h.carries_phone, hr⟩

/-- **Redaction is complete.** -/
theorem Classes.absent_redact (h : Classes isWord isDigit) (text : String) :
    ∀ r ∈ redactions isWord isDigit, Absent r.2 (redact isWord isDigit text).toList := by
  have hdigit : ∀ {r}, Splits isWord r → Splits isDigit r := fun hr => hr.mono h.word_of_digit
  have hcard : "card" ∈ kinds := by decide
  have hemail : "email" ∈ kinds := by decide
  have haddress : "address" ∈ kinds := by decide
  have hphone : "phone" ∈ kinds := by decide
  have hself : ∀ r ∈ redactions isWord isDigit, Passes '[' ']' (label r.1) r.2 r.2 := by
    refine List.forall_mem_cons.mpr ⟨h.passes_card hcard splits_card,
      List.forall_mem_cons.mpr ⟨h.passes_email hemail splits_email,
        List.forall_mem_cons.mpr ⟨h.passes_address haddress h.splits_address,
          List.forall_mem_singleton.mpr (h.passes_phone hphone splits_phone)⟩⟩⟩
  have hlater : (redactions isWord isDigit).Pairwise fun q r =>
      Passes '[' ']' (label r.1) q.2 r.2 := by
    refine .cons (List.forall_mem_cons.mpr ⟨h.passes_card hemail (hdigit splits_email),
      List.forall_mem_cons.mpr ⟨h.passes_card haddress (hdigit h.splits_address),
        List.forall_mem_singleton.mpr (h.passes_card hphone (hdigit splits_phone))⟩⟩) ?_
    refine .cons (List.forall_mem_cons.mpr ⟨h.passes_email haddress h.splits_address,
      List.forall_mem_singleton.mpr (h.passes_email hphone splits_phone)⟩) ?_
    exact .cons (List.forall_mem_singleton.mpr (h.passes_address hphone splits_phone))
      (List.pairwise_singleton _ _)
  have hall := absent_foldl (t := text.toList) (fun _ _ => bracketed_label) hself hlater
    (List.forall_mem_nil _)
  unfold redact
  rw [String.toList_ofList]
  exact hall

variable (isWord isDigit) in
/-- `redact`, with how often each pattern was found. -/
def redaction (text : String) : String × List (String × ℕ) :=
  let redacted := (redactions isWord isDigit).foldl (fun acc r =>
    let found := (r.2.findAll acc.1).length
    (r.2.replaceAll (fun _ => label r.1) acc.1,
      if found = 0 then acc.2 else acc.2 ++ [(r.1, found)])) (text.toList, [])
  (String.ofList redacted.1, redacted.2)

theorem redaction_text (text : String) :
    (redaction isWord isDigit text).1 = redact isWord isDigit text := rfl

theorem redaction_of_absent {text : String}
    (h : ∀ r ∈ redactions isWord isDigit, Absent r.2 text.toList) :
    redaction isWord isDigit text = (text, []) := by
  have hfold : ∀ l : List (String × Regex), (∀ r ∈ l, Absent r.2 text.toList) →
      l.foldl (fun acc r =>
        let found := (r.2.findAll acc.1).length
        (r.2.replaceAll (fun _ => label r.1) acc.1,
          if found = 0 then acc.2 else acc.2 ++ [(r.1, found)])) (text.toList, []) =
        (text.toList, []) := by
    intro l hl
    induction l with
    | nil => rfl
    | cons r l ih =>
      obtain ⟨hr, hl⟩ := List.forall_mem_cons.mp hl
      rw [List.foldl_cons]
      dsimp only
      rw [replaceAll_of_absent hr, findAll_of_absent hr]
      exact ih hl
  unfold redaction
  rw [hfold _ h]
  exact Prod.ext String.ofList_toList rfl

theorem Classes.redact_redact (h : Classes isWord isDigit) (text : String) :
    redact isWord isDigit (redact isWord isDigit text) = redact isWord isDigit text := by
  rw [← redaction_text (redact isWord isDigit text), redaction_of_absent (h.absent_redact text)]

theorem Classes.scrubbed_scrubbed (h : Classes isWord isDigit) (messages : List Message) :
    scrubbed isWord isDigit (scrubbed isWord isDigit messages) =
      scrubbed isWord isDigit messages := by
  unfold scrubbed
  rw [List.map_map]
  refine List.map_congr_left fun m _ => ?_
  show Message.mk m.role (redact isWord isDigit (redact isWord isDigit m.content)) = _
  rw [h.redact_redact]

/-- **Nothing is left**: after redacting, no pattern matches anywhere in the text, redacting again
changes nothing and counts nothing, and messages that were scrubbed stay as they are. -/
theorem redact_complete (h : Classes isWord isDigit) (text : String) (messages : List Message) :
    (∀ r ∈ redactions isWord isDigit, ∀ pre w post,
        (redaction isWord isDigit text).1.toList = pre ++ w ++ post →
          ¬ Matches r.2 pre.reverse w post) ∧
      redaction isWord isDigit (redaction isWord isDigit text).1 =
        ((redaction isWord isDigit text).1, []) ∧
      scrubbed isWord isDigit (scrubbed isWord isDigit messages) =
        scrubbed isWord isDigit messages := by
  rw [redaction_text]
  exact ⟨h.absent_redact text, redaction_of_absent (h.absent_redact text),
    h.scrubbed_scrubbed messages⟩

/-- The word characters and the digits of ASCII. -/
theorem classes_ascii : Classes (fun c => c.isAlphanum || c = '_') Char.isDigit where
  word_of_digit c hc := by simp [Char.isAlphanum, hc]
  punctuation := forall_of_all (by decide)
  not_digit_of_letter := forall_of_all (by decide)

theorem redact_complete_ascii :
    (∀ r ∈ redactions (fun c => c.isAlphanum || c = '_') Char.isDigit, ∀ pre w post,
        (redaction (fun c => c.isAlphanum || c = '_') Char.isDigit
          "0301-2345678+03012345678 42 Maple St.").1.toList = pre ++ w ++ post →
          ¬ Matches r.2 pre.reverse w post) ∧
      redaction (fun c => c.isAlphanum || c = '_') Char.isDigit
          (redaction (fun c => c.isAlphanum || c = '_') Char.isDigit
            "0301-2345678+03012345678 42 Maple St.").1 =
        ((redaction (fun c => c.isAlphanum || c = '_') Char.isDigit
          "0301-2345678+03012345678 42 Maple St.").1, []) ∧
      scrubbed (fun c => c.isAlphanum || c = '_') Char.isDigit
          (scrubbed (fun c => c.isAlphanum || c = '_') Char.isDigit []) =
        scrubbed (fun c => c.isAlphanum || c = '_') Char.isDigit [] :=
  redact_complete classes_ascii _ _

end

end Assistant.Generation
