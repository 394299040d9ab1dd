/-
How far the summaries that are kept say what the reviews say.

A word of a theme counts as said if it stands in a longer word of a review, a quote may begin inside
a word, and the pattern of the negations does not see a contraction.

* `Grounded` — what a summary promises of its quotes and themes;
* `OnlyInside`, `OnlyMistaken` — the words and the quotes that the checks take for said;
* `review_eq_ok` — what the checks have seen of a summary that is kept;
* `review_grounded_iff` — which of those summaries are grounded.
-/
import SmartFoodOps.Assistant.Summaries
import SmartFoodOps.Lib.Matching
import SmartFoodOps.Lib.Separated

namespace Assistant.Summaries

open Generation Pattern Phrase Regex

section

variable (isWord isDigit isPrintable : Char → Bool) (lower : String → String)

/-! ### What a summary promises -/

/-- The content words of a theme. -/
def contentWords (theme : String) : List String :=
  (words lower theme).filter fun w => ! common.contains w

/-- A word of the text, and not a part of one. -/
def WholeWord (w s : List Char) : Prop :=
  ∃ a b, s = a ++ (w ++ b) ∧ a.getLast?.any isWord = false ∧ b.head?.any isWord = false

/-- A word begins between the texts. -/
def StartsWord (before after : List Char) : Prop :=
  before.getLast?.any isWord = false ∧ after.head?.any isWord = true

/-- A word of the text ends in `n't`. -/
def Contracted (s : List Char) : Prop :=
  ∃ a b, s = a ++ ("n't".toList ++ b) ∧ a.getLast?.any isWord = true ∧ b.head?.any isWord = false

/-- The review has the quote there, and none of the listed negations before it in its sentence. -/
structure Taken (needle comment before after : List Char) : Prop where
  place : comment = before ++ (needle ++ after)
  unnegated : (negation isWord).occurs (sentence before) = false

/-- And it does not begin inside a word, and follows no contraction. -/
structure Fair (needle comment before after : List Char) : Prop
    extends Taken isWord needle comment before after where
  starts : StartsWord isWord before (needle ++ after)
  uncontracted : ¬ Contracted isWord (sentence before)

/-- What is said of a summary that is kept. -/
structure Grounded (summary : Summary) (comments : List String) : Prop where
  quotes : ∀ quote ∈ summary.quotes, ∃ comment ∈ comments, ∃ before after,
    Fair isWord (normalise lower quote).toList (normalise lower comment).toList before after
  words : ∀ theme ∈ summary.themes, ∀ w ∈ contentWords lower theme, ∃ comment ∈ comments,
    WholeWord isWord w.toList (normalise lower comment).toList
  digits : ∀ theme ∈ summary.themes, ∀ x ∈ theme.toList, isDigit x = false

/-! ### What the checks mistake -/

/-- The reviews have the word, but only in longer words. -/
def OnlyInside (w : String) (comments : List String) : Prop :=
  (∃ comment ∈ comments, Says (normalise lower comment) w) ∧
    ∀ comment ∈ comments, ¬ WholeWord isWord w.toList (normalise lower comment).toList

/-- The reviews have the quote, but only inside a word, or behind a contraction or a negation. -/
def OnlyMistaken (needle : String) (comments : List String) : Prop :=
  (∃ comment ∈ comments, ∃ before after,
      Taken isWord needle.toList (normalise lower comment).toList before after) ∧
    ∀ comment ∈ comments, ∀ before after,
      Taken isWord needle.toList (normalise lower comment).toList before after →
        ¬ StartsWord isWord before (needle.toList ++ after) ∨ Contracted isWord (sentence before)

/-- What the loops come to, of a list. -/
def examined (most : ℕ) (stripped : String → String) (xs : List String) : List String :=
  ((xs.map stripped).filter fun x => x ≠ "").take most

/-- Nothing that is kept has been mistaken. -/
structure Unmistaken (themes quotes comments : List String) : Prop where
  words : ∀ theme ∈ examined maxThemes strip themes, ∀ w ∈ contentWords lower theme,
    ¬ OnlyInside isWord lower w comments
  quotes : ∀ quote ∈ examined maxQuotes unquoted quotes,
    ¬ OnlyMistaken isWord lower (normalise lower quote) comments

variable {isWord isDigit isPrintable lower} {most : ℕ} {stripped : String → String}
  {check : String → Except Rejected Unit} {xs kept out themes quotes comments : List String}
  {summary : Summary} {theme quote joined : String} {needle before rest : List Char}

/-! ### What the checks have seen -/

/-- A loop keeps what it has examined, and has checked it. -/
theorem keep_eq_ok (hlt : kept.length < most) (h : keep most stripped check xs kept = .ok out) :
    out = kept ++ examined (most - kept.length) stripped xs ∧
      ∀ x ∈ examined (most - kept.length) stripped xs, check x = .ok () := by
  unfold examined
  induction xs generalizing kept with
  | nil =>
    obtain rfl := Except.ok.inj h
    simp
  | cons x xs ih =>
    simp only [keep] at h
    rw [List.map_cons]
    split at h
    · next hx =>
      rw [List.filter_cons_of_neg (by simpa using hx)]
      exact ih hlt h
    · next hx =>
      obtain ⟨n, hn⟩ : ∃ n, most - kept.length = n + 1 := ⟨most - kept.length - 1, by omega⟩
      have hlen : (kept ++ [stripped x]).length = kept.length + 1 := by simp
      rw [List.filter_cons_of_pos (by simpa using hx), hn, List.take_succ_cons]
      split at h
      · cases h
      · next hcheck =>
        split at h
        · next hle =>
          obtain rfl := Except.ok.inj h
          obtain rfl : n = 0 := by omega
          exact ⟨rfl, List.forall_mem_singleton.mpr hcheck⟩
        · next hle =>
          have hn' : most - (kept ++ [stripped x]).length = n := by omega
          obtain ⟨hout, hall⟩ := ih (by omega) h
          rw [hn'] at hout hall
          refine ⟨by rw [hout, List.append_assoc]; rfl, List.forall_mem_cons.mpr ⟨hcheck, hall⟩⟩

theorem checkTheme_eq_ok (h : checkTheme isWord isDigit isPrintable lower joined theme = .ok ()) :
    (Regex.char isDigit).occurs theme.toList = false ∧ ungrounded lower theme joined = none := by
  unfold checkTheme at h
  split at h
  · cases h
  split at h
  · cases h
  next hdigit =>
  split at h
  · cases h
  split at h
  · cases h
  next hnone => exact ⟨Bool.eq_false_iff.mpr hdigit, hnone⟩

theorem quotedFrom_eq_true (h : quotedFrom isWord needle before rest = true) :
    ∃ a b, Taken isWord needle (before.reverse ++ rest) a b := by
  induction rest generalizing before with
  | nil =>
    simp only [quotedFrom, Bool.and_eq_true, decide_eq_true_eq] at h
    obtain ⟨rfl, hneg⟩ := h
    exact ⟨before.reverse, [], by simp, by simpa using hneg⟩
  | cons x rest ih =>
    simp only [quotedFrom, Bool.or_eq_true, Bool.and_eq_true, decide_eq_true_eq] at h
    rcases h with ⟨⟨b, hb⟩, hneg⟩ | h
    · exact ⟨before.reverse, b, by rw [← hb], by simpa using hneg⟩
    · obtain ⟨a, b, htaken⟩ := ih h
      rw [List.reverse_cons, List.append_assoc] at htaken
      exact ⟨a, b, htaken⟩

theorem checkQuote_eq_ok (h : checkQuote isWord lower (corpus lower comments) quote = .ok ()) :
    ∃ comment ∈ comments, ∃ a b,
      Taken isWord (normalise lower quote).toList (normalise lower comment).toList a b := by
  unfold checkQuote at h
  dsimp only at h
  split at h
  · cases h
  split at h
  · next hany =>
    obtain ⟨s, hs, hquoted⟩ := List.any_eq_true.mp hany
    obtain ⟨comment, hcomment, rfl⟩ := List.mem_map.mp hs
    exact ⟨comment, List.mem_of_mem_filter hcomment, quotedFrom_eq_true hquoted⟩
  · cases h

/-- The words of a theme are of letters, so a word does not reach across two reviews. -/
theorem exists_says_of_says {w : String} (hw : w ∈ words lower theme)
    (h : Says (" ".intercalate (corpus lower comments)) w) :
    ∃ comment ∈ comments, Says (normalise lower comment) w := by
  obtain ⟨u, hu, rfl⟩ := List.mem_map.mp hw
  obtain ⟨b, a, hmatch⟩ := exists_of_mem_findAll hu
  have hover : Over (fun x => x ≠ ' ') word := by
    have hletter : ∀ x : Char, (97 ≤ x.toNat && x.toNat ≤ 122) = true → x ≠ ' ' := by
      rintro x hx rfl
      exact absurd hx (by decide)
    exact ⟨over_times (r := char _) hletter 4, hletter⟩
  have hspace : ' ' ∉ u := fun hmem => hover.forall_mem hmatch ' ' hmem rfl
  have hne : u ≠ [] := by
    obtain ⟨_, _, rfl, ⟨_, _, rfl, ⟨x, -, rfl⟩, -⟩, -⟩ := hmatch
    simp
  unfold Says at h
  have hsep : " ".toList = [' '] := by decide
  rw [String.toList_ofList, String.toList_intercalate, hsep] at h
  obtain ⟨pre, post, h⟩ := h
  rcases hcorpus : (corpus lower comments).map String.toList with _ | ⟨s, l⟩
  · rw [hcorpus, List.intercalate_nil] at h
    exact absurd (List.append_eq_nil_iff.mp (List.append_eq_nil_iff.mp h).1).2 hne
  · rw [List.append_assoc] at h
    obtain ⟨l₁, s', l₂, p, q, heq, hs', -⟩ :=
      Separated.exists_piece hspace (by rw [hcorpus]; exact List.cons_ne_nil _ _) h.symm
    have hmem : s' ∈ (corpus lower comments).map String.toList := by
      rw [heq]
      simp
    obtain ⟨text, htext, rfl⟩ := List.mem_map.mp hmem
    obtain ⟨comment, hcomment, rfl⟩ := List.mem_map.mp htext
    refine ⟨comment, List.mem_of_mem_filter hcomment, p, q, ?_⟩
    rw [String.toList_ofList, hs', List.append_assoc]

/-- **What the checks have seen** of a summary that is kept. -/
theorem review_eq_ok
    (h : review isWord isDigit isPrintable lower themes quotes comments = .ok summary) :
    summary.themes = examined maxThemes strip themes ∧
      summary.quotes = examined maxQuotes unquoted quotes ∧
      (∀ theme ∈ summary.themes, (∀ x ∈ theme.toList, isDigit x = false) ∧
        ∀ w ∈ contentWords lower theme, ∃ comment ∈ comments, Says (normalise lower comment) w) ∧
      ∀ quote ∈ summary.quotes, ∃ comment ∈ comments, ∃ before after,
        Taken isWord (normalise lower quote).toList (normalise lower comment).toList before after := by
  simp only [review, bind, Except.bind] at h
  split at h
  · cases h
  next keptThemes hthemes =>
  split at h
  · cases h
  next keptQuotes hquotes =>
  split at h
  · cases h
  obtain rfl := Except.ok.inj h
  obtain ⟨rfl, hcheckThemes⟩ := keep_eq_ok (by decide) hthemes
  obtain ⟨rfl, hcheckQuotes⟩ := keep_eq_ok (by decide) hquotes
  refine ⟨rfl, rfl, fun theme htheme => ?_, fun quote hquote => checkQuote_eq_ok (hcheckQuotes quote hquote)⟩
  obtain ⟨hdigit, hground⟩ := checkTheme_eq_ok (hcheckThemes theme htheme)
  refine ⟨fun x hx => ?_, fun w hw => ?_⟩
  · obtain ⟨a, b, hab⟩ := List.append_of_mem hx
    have habsent := occurs_eq_false_iff.mp hdigit a [x] b (by rw [hab]; simp)
    exact Bool.eq_false_iff.mpr fun hd => habsent ⟨x, hd, rfl⟩
  · obtain ⟨hmem, hcommon⟩ := List.mem_filter.mp hw
    refine exists_says_of_says hmem ?_
    by_contra hsays
    refine List.find?_eq_none.mp hground w hmem ?_
    rw [Bool.and_eq_true]
    exact ⟨hcommon, by simpa using hsays⟩

/-- **Which summaries are grounded**: those that are kept, and of which nothing was mistaken. -/
theorem review_grounded_iff
    (h : review isWord isDigit isPrintable lower themes quotes comments = .ok summary) :
    Grounded isWord isDigit lower summary comments ↔
      Unmistaken isWord lower themes quotes comments := by
  obtain ⟨hthemes, hquotes, hsaid, htaken⟩ := review_eq_ok h
  constructor
  · rintro ⟨hq, hw, -⟩
    rw [hquotes] at hq
    rw [hthemes] at hw
    refine ⟨fun theme htheme w hmem hinside => ?_, fun quote hquote hmistaken => ?_⟩
    · obtain ⟨comment, hcomment, hwhole⟩ := hw theme htheme w hmem
      exact hinside.2 comment hcomment hwhole
    · obtain ⟨comment, hcomment, before, after, hfair⟩ := hq quote hquote
      rcases hmistaken.2 comment hcomment before after hfair.toTaken with hnot | hcontracted
      · exact hnot hfair.starts
      · exact hfair.uncontracted hcontracted
  · rintro ⟨hw, hq⟩
    refine ⟨fun quote hquote => ?_, fun theme htheme w hmem => ?_, fun theme htheme =>
      (hsaid theme htheme).1⟩
    · have hnot := hq quote (hquotes ▸ hquote)
      by_contra hunfair
      refine hnot ⟨htaken quote hquote, fun comment hcomment before after hplace => ?_⟩
      by_contra hor
      rw [not_or, not_not] at hor
      exact hunfair ⟨comment, hcomment, before, after, hplace, hor.1, hor.2⟩
    · have hnot := hw theme (hthemes ▸ htheme) w hmem
      by_contra hwhole
      exact hnot ⟨(hsaid theme htheme).2 w hmem, fun comment hcomment hin =>
        hwhole ⟨comment, hcomment, hin⟩⟩

end

/-! ### A contraction -/

deriving instance DecidableEq for Generation.Summary

/-- The word characters of ASCII. -/
def asciiWord (c : Char) : Bool := c.isAlphanum || c = '_'

/-- A customer who was not impressed is quoted as one who was. -/
theorem exists_not_grounded : ∃ summary,
    review asciiWord Char.isDigit (fun _ => true) String.toLower ["biryani"] ["the best in town"]
        ["The biryani wasn't the best in town."] = .ok summary ∧
      ¬ Grounded asciiWord Char.isDigit String.toLower summary
        ["The biryani wasn't the best in town."] := by
  refine ⟨⟨["biryani"], ["the best in town"]⟩, by decide +kernel, fun h => ?_⟩
  obtain ⟨comment, hcomment, before, after, hfair⟩ := h.quotes _ List.mem_cons_self
  obtain rfl := List.mem_singleton.mp hcomment
  have hneedle : (normalise String.toLower "the best in town").toList =
      "the best in town".toList := by decide +kernel
  have hcorpus : (normalise String.toLower "The biryani wasn't the best in town.").toList =
      "the biryani wasn't the best in town.".toList := by decide +kernel
  have hplace := hfair.place
  rw [hneedle, hcorpus] at hplace
  -- the quote stands at one place only
  have honly : ∀ k ≤ 36, "the best in town".toList <+:
      ("the biryani wasn't the best in town.".toList).drop k → k = 19 := by decide +kernel
  have hlen : before.length = 19 := by
    refine honly _ ?_ ?_
    · have hlength := congrArg List.length hplace
      rw [List.length_append, show "the biryani wasn't the best in town.".toList.length = 36 by
        decide] at hlength
      omega
    · rw [hplace, List.drop_left]
      exact List.prefix_append _ _
  have hbefore : before = "the biryani wasn't ".toList := by
    have htake := congrArg (List.take 19) hplace
    rw [← hlen, List.take_left, hlen] at htake
    rw [← htake]
    decide
  refine hfair.uncontracted ?_
  rw [hbefore, show sentence "the biryani wasn't ".toList = "the biryani wasn't ".toList by
    decide +kernel]
  exact ⟨"the biryani was".toList, [' '], by decide, by decide, by decide⟩

/-- A summary of what one review says. -/
theorem review_grounded_iff_biryani :
    Grounded asciiWord Char.isDigit String.toLower ⟨["biryani"], ["Lovely biryani!"]⟩
        ["Lovely  biryani! Will order again."] ↔
      Unmistaken asciiWord String.toLower ["biryani"] ["“Lovely biryani!”"]
        ["Lovely  biryani! Will order again."] := by
  have h : review asciiWord Char.isDigit (fun _ => true) String.toLower ["biryani"]
      ["“Lovely biryani!”"] ["Lovely  biryani! Will order again."] =
        .ok ⟨["biryani"], ["Lovely biryani!"]⟩ := by decide +kernel
  exact review_grounded_iff h

end Assistant.Summaries
