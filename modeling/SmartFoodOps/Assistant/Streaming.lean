/-
An answer that arrives in pieces, and what a turn makes of it.

* `hold`, `keeps_hold` — what the stripper holds back, among it every citation that has begun;
* `Stripper.feed`, `streamed` — the pieces one after the other, and what is still held at the end;
* `Nested` — a citation in which others stand;
* `not_occurs_streamed`, `solid_streamed` — unless there is one, the stream is the answer without
  its citations, whatever the pieces.
-/
import SmartFoodOps.Assistant.Validation
import SmartFoodOps.Assistant.Settling

open Erasure Spacing

namespace Assistant

/-! ### What is held back -/

/-- `$`. -/
def AtEnd (s : List Char) : Prop := s = [] ∨ s = ['\n']

/-- The text is the beginning of the word, or goes on behind it. -/
def Grows (rest : List Char → Prop) : List Char → List Char → Prop
  | [], s => rest s
  | x :: word, s => (∃ t, s = x :: t ∧ Grows rest word t) ∨ AtEnd s

/-- The text is a citation that has begun. -/
def Begun (s : List Char) : Prop :=
  ∃ t, s = '[' :: t ∧ Grows (fun s => AtEnd (s.dropWhile isIdChar)) ['i', 't', 'e', 'm', ':'] t

section

variable {s t u p q : List Char} {rest : List Char → Prop}

theorem run_ending {before : List Char} :
    Regex.run (.seq .ending .empty) ⟨before, s⟩ ≠ [] ↔ AtEnd s := by
  rw [Regex.run_seq_empty_right]
  show (if (decide (s = []) || decide (s = ['\n'])) = true then [(⟨before, s⟩ : Cursor)] else []) ≠ [] ↔ _
  unfold AtEnd
  by_cases h : s = [] ∨ s = ['\n']
  · rw [if_pos (by simpa using h)]
    exact ⟨fun _ => h, fun _ => List.cons_ne_nil _ _⟩
  · rw [if_neg (by simpa using h)]
    exact ⟨fun hne => absurd rfl hne, fun hs => absurd hs h⟩

/-- One more character of the word may follow. -/
theorem run_grow {x : Char} {r k : Regex} {before : List Char} :
    Regex.run (.seq (.opt (.seq (.lit x) r)) k) ⟨before, s⟩ ≠ [] ↔
      (∃ t, s = x :: t ∧ Regex.run (.seq r k) ⟨x :: before, t⟩ ≠ []) ∨
        Regex.run k ⟨before, s⟩ ≠ [] := by
  show Regex.run (.seq (.alt (.seq (.lit x) r) .empty) k) _ ≠ [] ↔ _
  rw [Regex.run_seq_alt, Regex.run_seq_empty, Regex.run_seq_assoc, ne_eq, List.append_eq_nil_iff,
    not_and_or]
  refine or_congr_left ?_
  rcases s with _ | ⟨y, s⟩
  · exact ⟨fun h => absurd rfl h, fun ⟨t, ht, _⟩ => by cases ht⟩
  · show ¬ Regex.run (.seq (.char fun y => decide (y = x)) _) _ = [] ↔ _
    rw [Regex.run_seq_char]
    by_cases hy : y = x
    · subst hy
      rw [if_pos (decide_eq_true rfl)]
      refine ⟨fun h => ⟨s, rfl, h⟩, fun ⟨t, ht, h⟩ => ?_⟩
      rw [(List.cons.inj ht).2]
      exact h
    · rw [if_neg (by simpa using hy)]
      exact ⟨fun h => absurd rfl h, fun ⟨t, ht, _⟩ => absurd (List.cons.inj ht).1 hy⟩

/-- And so on, through the word. -/
theorem run_grows {r : Regex} (word : List Char) (hrest : ∀ before s,
    Regex.run (.seq r (.seq .ending .empty)) ⟨before, s⟩ ≠ [] ↔ rest s) (before s : List Char) :
    Regex.run (.seq (word.foldr (fun x r => .opt (.seq (.lit x) r)) r) (.seq .ending .empty))
      ⟨before, s⟩ ≠ [] ↔ Grows rest word s := by
  induction word generalizing before s with
  | nil => exact hrest before s
  | cons x word ih =>
    rw [List.foldr_cons, run_grow, run_ending]
    exact or_congr_left (exists_congr fun t => and_congr_right fun _ => ih (x :: before) t)

theorem begins_partialMarker : partialMarker.Begins Begun := by
  intro before s
  have hstop : ∀ b x s, isIdChar x = true → Regex.run (.seq .ending .empty) ⟨b, x :: s⟩ = [] := by
    intro b x s hx
    by_contra hne
    rcases run_ending.mp hne with h | h
    · cases h
    · obtain ⟨rfl, -⟩ := List.cons.inj h
      exact absurd hx (by decide)
  have hword : ∀ before s, Regex.run (.seq (.star (.char isIdChar)) (.seq .ending .empty)) ⟨before, s⟩ ≠
      [] ↔ AtEnd (s.dropWhile isIdChar) := by
    intro before s
    rw [Regex.run_seq_star hstop]
    exact run_ending
  show Regex.run (.seq (.char fun y => decide (y = '[')) _) _ ≠ [] ↔ _
  unfold Begun
  rcases s with _ | ⟨y, s⟩
  · exact ⟨fun h => absurd rfl h, fun ⟨t, ht, _⟩ => by cases ht⟩
  rw [Regex.run_seq_char]
  by_cases hy : y = '['
  · subst hy
    rw [if_pos (decide_eq_true rfl)]
    refine (run_grows ['i', 't', 'e', 'm', ':'] hword _ s).trans ⟨fun h => ⟨s, rfl, h⟩, ?_⟩
    rintro ⟨t, ht, h⟩
    rw [(List.cons.inj ht).2]
    exact h
  · rw [if_neg (by simpa using hy)]
    exact ⟨fun h => absurd rfl h, fun ⟨t, ht, _⟩ => absurd (List.cons.inj ht).1 hy⟩

/-- Nothing after its first character opens a citation, and nothing closes it. -/
theorem Begun.exists_eq (h : Begun s) : ∃ t, s = '[' :: t ∧ ∀ c ∈ t, c ≠ '[' ∧ c ≠ ']' := by
  have hend : ∀ s, AtEnd s → ∀ c ∈ s, c ≠ '[' ∧ c ≠ ']' := by
    rintro s (rfl | rfl)
    · exact List.forall_mem_nil _
    · exact List.forall_mem_singleton.mpr ⟨by decide, by decide⟩
  have hrest : ∀ s : List Char, AtEnd (s.dropWhile isIdChar) → ∀ c ∈ s, c ≠ '[' ∧ c ≠ ']' := by
    intro s hs c hc
    rw [← List.takeWhile_append_dropWhile (p := isIdChar) (l := s)] at hc
    rcases List.mem_append.mp hc with hc | hc
    · obtain ⟨hopen, hclose, -⟩ := isIdChar_apart (List.mem_takeWhile_imp hc)
      exact ⟨hopen, hclose⟩
    · exact hend _ hs c hc
  have hgrows : ∀ (word : List Char) (s : List Char), (∀ c ∈ word, isIdChar c = true) →
      Grows (fun s => AtEnd (s.dropWhile isIdChar)) word s → ∀ c ∈ s, c ≠ '[' ∧ c ≠ ']' := by
    intro word
    induction word with
    | nil => exact fun s _ hs => hrest s hs
    | cons x word ih =>
      rintro s hword (⟨t, rfl, ht⟩ | hs)
      · obtain ⟨hopen, hclose, -⟩ := isIdChar_apart (hword x List.mem_cons_self)
        refine List.forall_mem_cons.mpr ⟨⟨hopen, hclose⟩, ?_⟩
        exact ih t (fun c hc => hword c (List.mem_cons_of_mem _ hc)) ht
      · exact hend s hs
  obtain ⟨t, rfl, ht⟩ := h
  exact ⟨t, rfl, hgrows _ t (fun c hc => isIdChar_of_mem hc) ht⟩

/-- **A citation that has begun** is told as such. -/
theorem begun_of_isMarker (hm : IsMarker (p ++ q)) (hp : p ≠ []) (hq : q ≠ []) : Begun p := by
  obtain ⟨w, -, hw, heq⟩ := hm
  have hend : AtEnd [] := .inl rfl
  have hgrows : ∀ (word t : List Char), t <+: word ++ w →
      Grows (fun s => AtEnd (s.dropWhile isIdChar)) word t := by
    intro word
    induction word with
    | nil =>
      intro t ht
      show AtEnd (t.dropWhile isIdChar)
      rw [List.dropWhile_eq_nil_iff.mpr fun c hc => hw c (ht.subset hc)]
      exact hend
    | cons x word ih =>
      intro t ht
      rcases t with _ | ⟨y, t⟩
      · exact .inr hend
      · obtain ⟨rfl, htail⟩ := List.cons_prefix_cons.mp ht
        exact .inl ⟨t, rfl, ih t htail⟩
  rcases p with _ | ⟨x, t⟩
  · exact absurd rfl hp
  rw [toList_opening] at heq
  obtain ⟨rfl, htail⟩ := List.cons.inj heq
  refine ⟨t, rfl, hgrows _ t ?_⟩
  -- the last character of the citation is still to come
  have heq' : t ++ q = (['i', 't', 'e', 'm', ':'] ++ w) ++ [']'] := by
    rw [List.append_assoc]
    exact htail
  rcases List.append_eq_append_iff.mp heq' with ⟨a, ha, -⟩ | ⟨b, rfl, hb⟩
  · exact ⟨a, ha.symm⟩
  · rcases b with _ | ⟨y, b⟩
    · rw [List.append_nil]
    · obtain ⟨-, hnil⟩ := List.cons.inj hb
      exact absurd (List.append_eq_nil_iff.mp hnil.symm).2 hq

end

/-- What `push` sends of what it has buffered, and what it holds. -/
def hold (s : List Char) : List Char × List Char :=
  match partialMarker.search s with
  | none => (s, [])
  | some (start, _) => (start.before.reverse, start.after)

/-- Either nothing is held, or a citation that has begun. -/
theorem hold_cases (s : List Char) : (hold s = (s, []) ∧ ∀ u, u <:+ s → ¬ Begun u) ∨
    (hold s).1 ++ (hold s).2 = s ∧ Begun (hold s).2 ∧
      ∀ u, u <:+ s → Begun u → u <:+ (hold s).2 := by
  rcases hs : partialMarker.search s with _ | ⟨start, e⟩
  · have heq : hold s = (s, []) := by
      unfold hold
      rw [hs]
    exact .inl ⟨heq, fun u => Regex.search_none begins_partialMarker hs⟩
  · have heq : hold s = (start.before.reverse, start.after) := by
      unfold hold
      rw [hs]
    rw [heq]
    exact .inr (Regex.search_some begins_partialMarker hs)

/-- **The end that can still become a citation is held back.** -/
theorem keeps_hold : Stripping.Keeps IsMarker hold where
  append := by
    intro s
    rcases hold_cases s with ⟨heq, -⟩ | ⟨heq, -⟩
    · rw [heq, List.append_nil]
    · exact heq
  held := by
    rintro s a p q rfl hp hq hm
    have hbegun := begun_of_isMarker hm hp hq
    rcases hold_cases (a ++ p) with ⟨-, hnone⟩ | ⟨-, hheld, hleft⟩
    · exact absurd hbegun (hnone p (List.suffix_append a p))
    · obtain ⟨t, ht, hclean⟩ := hheld.exists_eq
      obtain ⟨t', rfl, -⟩ := hbegun.exists_eq
      have hsuffix := hleft _ (List.suffix_append a _) hbegun
      rw [ht] at hsuffix ⊢
      rcases List.suffix_cons_iff.mp hsuffix with heq | hin
      · exact heq.symm
      · exact absurd rfl (hclean '[' (hin.subset List.mem_cons_self)).1

/-! ### The stripper -/

/-- `push`, for one piece after the other. -/
def Stripper.feed : Stripper → List String → List Char × Stripper
  | s, [] => ([], s)
  | s, text :: texts =>
    let r := (s.push text.toList).2.feed texts
    ((s.push text.toList).1 ++ r.1, r.2)

/-- What a stripper makes of a text in pieces, `flush` included. -/
def streamed (texts : List String) : List Char :=
  let r := Stripper.feed {} texts
  r.1 ++ r.2.flush.1

/-- What has been sent is what was let through, with other white space. -/
structure Stripper.Follows (s : Stripper) (sent raw : List Char) : Prop where
  solid : solid isSpace sent = solid isSpace raw
  occurs : ∀ b, Occurs IsMarker (sent ++ b) ↔ Occurs IsMarker (raw ++ b)
  last : s.last = sent.getLast?

section

variable {s : Stripper} {sent raw : List Char}

theorem Stripper.push_eq (text : List Char) : s.push text =
    { s with held := (hold (unspaced (s.held ++ text))).2 }.spaced
      (hold (unspaced (s.held ++ text))).1 := by
  unfold Stripper.push hold unspaced
  dsimp only
  rcases partialMarker.search (markerSpace.replaceAll (fun _ => []) (s.held ++ text)) with
    _ | ⟨start, e⟩
  · rfl
  · rfl

theorem Stripper.held_spaced (out : List Char) : (s.spaced out).2.held = s.held := rfl

theorem isSpace_of_eq {c : Char} (h : decide (c = ' ') = true) : isSpace c = true := by
  rw [of_decide_eq_true h]
  decide

/-- Blanks are collapsed and, behind a space or at the front, spaces are left out. -/
theorem Stripper.spaced_cases (out : List Char) :
    s.spaced out = (collapsed out, { s with last := (collapsed out).getLast? <|> s.last }) ∨
    (s.last = some ' ' ∨ s.last = none) ∧ ∃ o, o = (collapsed out).dropWhile (· = ' ') ∧
      s.spaced out = (o, { s with last := o.getLast? <|> s.last }) := by
  unfold Stripper.spaced
  dsimp only
  by_cases hlast : s.last = some ' ' ∨ s.last = none
  · rw [if_pos hlast]
    exact .inr ⟨hlast, _, rfl, rfl⟩
  · rw [if_neg hlast]
    exact .inl rfl

theorem Stripper.solid_spaced (out : List Char) :
    solid isSpace (s.spaced out).1 = solid isSpace out := by
  rcases s.spaced_cases out with heq | ⟨-, o, rfl, heq⟩
  · rw [heq]
    exact respaced_collapsed.solid
  · rw [heq]
    exact (solid_dropWhile fun c => isSpace_of_eq).trans respaced_collapsed.solid

/-- **Collapsing blanks**, also across pieces, leaves what was let through, but for white space. -/
theorem Stripper.Follows.spaced (h : s.Follows sent raw) (out : List Char) :
    (s.spaced out).2.Follows (sent ++ (s.spaced out).1) (raw ++ out) := by
  have hcollapsed : ∀ b, Occurs IsMarker (sent ++ (collapsed out ++ b)) ↔
      Occurs IsMarker (sent ++ (out ++ b)) := by
    intro b
    rw [← List.append_assoc, ← List.append_assoc]
    exact respaced_collapsed.occurs sent b
  have hlast : ∀ o : List Char, (o.getLast? <|> s.last) = (sent ++ o).getLast? := by
    intro o
    rw [h.last, List.getLast?_append, Option.or_eq_orElse]
    rfl
  refine ⟨?_, fun b => ?_, ?_⟩
  · rw [solid_append, solid_append, h.solid, solid_spaced]
  · rw [List.append_assoc, List.append_assoc, ← h.occurs, ← hcollapsed]
    rcases s.spaced_cases out with heq | ⟨hspace, o, rfl, heq⟩
    · rw [heq]
    · have hfront : sent = [] ∨ ∃ t x, sent = t ++ [x] ∧ isSpace x = true := by
        rw [h.last] at hspace
        rcases hspace with hspace | hspace
        · obtain ⟨t, ht⟩ := List.getLast?_eq_some_iff.mp hspace
          exact .inr ⟨t, ' ', ht, by decide⟩
        · exact .inl (List.getLast?_eq_none_iff.mp hspace)
      have hspaces : ∀ x ∈ (collapsed out).takeWhile (· = ' '), isSpace x = true := fun x hx =>
        isSpace_of_eq (List.mem_takeWhile_imp (p := fun c => decide (c = ' ')) hx)
      rw [heq, ← clean_marker.occurs_append_spaces hfront hspaces, ← List.append_assoc
        (List.takeWhile _ _), List.takeWhile_append_dropWhile]
  · rcases s.spaced_cases out with heq | ⟨-, o, -, heq⟩
    · rw [heq]
      exact hlast _
    · rw [heq]
      exact hlast o

/-- What the pieces are, as characters. -/
abbrev pieces (texts : List String) : List (List Char) := texts.map String.toList

theorem Stripper.Follows.feed (texts : List String) (h : s.Follows sent raw) :
    (s.feed texts).2.Follows (sent ++ (s.feed texts).1)
      (raw ++ (Stripping.feed unspaced hold s.held (pieces texts)).1) ∧
    (s.feed texts).2.held = (Stripping.feed unspaced hold s.held (pieces texts)).2 := by
  induction texts generalizing s sent raw with
  | nil =>
    show s.Follows (sent ++ []) (raw ++ []) ∧ _
    rw [List.append_nil, List.append_nil]
    exact ⟨h, rfl⟩
  | cons text texts ih =>
    have hpush : ({ s with held := (hold (unspaced (s.held ++ text.toList))).2 } : Stripper).Follows
        sent raw := ⟨h.solid, h.occurs, h.last⟩
    have hstep := hpush.spaced (hold (unspaced (s.held ++ text.toList))).1
    have hheld : (s.push text.toList).2.held = (hold (unspaced (s.held ++ text.toList))).2 := by
      rw [push_eq]
      rfl
    rw [← push_eq] at hstep
    obtain ⟨hrest, hrest'⟩ := ih hstep
    rw [hheld] at hrest hrest'
    rw [List.append_assoc, List.append_assoc] at hrest
    exact ⟨hrest, hrest'⟩

theorem Stripper.Follows.flush (h : s.Follows sent raw) :
    s.flush.2.Follows (sent ++ s.flush.1) (raw ++ s.held) := by
  have hnone : ({ s with held := [] } : Stripper).Follows sent raw := ⟨h.solid, h.occurs, h.last⟩
  exact hnone.spaced s.held

/-- What is held is nothing, or a citation that has begun. -/
theorem Stripper.held_feed (texts : List String) (h : s.held = [] ∨ Begun s.held) :
    (s.feed texts).2.held = [] ∨ Begun (s.feed texts).2.held := by
  induction texts generalizing s with
  | nil => exact h
  | cons text texts ih =>
    refine ih ?_
    rw [push_eq, held_spaced]
    rcases hold_cases (unspaced (s.held ++ text.toList)) with ⟨heq, -⟩ | ⟨-, hbegun, -⟩
    · exact .inl (congrArg Prod.snd heq)
    · exact .inr hbegun

/-- One more piece, and the end. -/
theorem Stripper.solid_push_flush (text : List Char) :
    solid isSpace ((s.push text).1 ++ (s.push text).2.flush.1) =
      solid isSpace (unspaced (s.held ++ text)) := by
  have hflush : ∀ s : Stripper, solid isSpace s.flush.1 = solid isSpace s.held := fun s =>
    Stripper.solid_spaced s.held
  rw [solid_append, hflush, push_eq, solid_spaced, held_spaced, ← solid_append]
  exact congrArg (solid isSpace) (keeps_hold.append _)

theorem Stripper.follows_nil : ({} : Stripper).Follows [] [] := ⟨rfl, fun _ => Iff.rfl, rfl⟩

end

/-- What is let through of a text in pieces, before blanks are collapsed. -/
def letThrough (texts : List String) : List Char :=
  let r := Stripping.feed unspaced hold [] (pieces texts)
  r.1 ++ r.2

theorem flatten_pieces (texts : List String) :
    (pieces texts).flatten = (String.join texts).toList := by
  rw [String.toList_join]
  rfl

theorem streamed_follows (texts : List String) :
    solid isSpace (streamed texts) = solid isSpace (letThrough texts) ∧
      (Occurs IsMarker (streamed texts) ↔ Occurs IsMarker (letThrough texts)) := by
  obtain ⟨hfeed, hheld⟩ := Stripper.follows_nil.feed texts
  have hflush := hfeed.flush
  rw [hheld, List.nil_append, List.nil_append] at hflush
  have hoccurs := hflush.occurs []
  rw [List.append_nil, List.append_nil] at hoccurs
  exact ⟨hflush.solid, hoccurs⟩

/-- A text in one piece is let through without its citations. -/
theorem letThrough_singleton (text : String) : letThrough [text] = unspaced text.toList := by
  show (hold (unspaced ([] ++ text.toList))).1 ++ [] ++ (hold (unspaced ([] ++ text.toList))).2 = _
  rw [List.append_nil, keeps_hold.append]
  rfl

/-! ### Citations in citations -/

/-- A citation is written in the answer with other citations in it, each perhaps with white space
behind it. -/
def Nested (answer : String) : Prop :=
  Interrupted IsMarker (fun _ g => Stripping.Skipped IsMarker isSpace g) answer.toList

theorem occurs_unspaced (answer : String) :
    Occurs IsMarker (unspaced answer.toList) ↔ Nested answer :=
  strips_markerSpace.erases.exposed_iff

theorem solid_unspaced (answer : String) :
    solid isSpace (unspaced answer.toList) = solid isSpace (textOf answer).toList := by
  rw [solid_textOf]
  exact strips_markerSpace.solid_eq strips_marker

variable {texts : List String}

theorem thins_letThrough (h : ¬ Nested (String.join texts)) :
    Thins isSpace (letThrough texts) (unspaced (String.join texts).toList) := by
  have hthins := strips_markerSpace.thins_feed keeps_hold (pieces texts) []
    clean_marker.not_occurs_nil
  rw [List.nil_append, flatten_pieces, occurs_unspaced] at hthins
  exact hthins h

/-- **However the answer is cut**, no citation is sent. -/
theorem not_occurs_streamed (h : ¬ Nested (String.join texts)) :
    ¬ Occurs IsMarker (streamed texts) := by
  intro hs
  have hthrough := (streamed_follows texts).2.mp hs
  exact h ((occurs_unspaced _).mp ((thins_letThrough h).occurs clean_marker hthrough))

/-- **However the answer is cut**, what is sent is the text that is shown, up to white space. -/
theorem solid_streamed (h : ¬ Nested (String.join texts)) :
    solid isSpace (streamed texts) = solid isSpace (textOf (String.join texts)).toList := by
  rw [(streamed_follows texts).1, (thins_letThrough h).solid, solid_unspaced]

theorem occurs_streamed_singleton (answer : String) :
    Occurs IsMarker (streamed [answer]) ↔ Nested answer := by
  rw [(streamed_follows [answer]).2, letThrough_singleton, occurs_unspaced]

end Assistant
