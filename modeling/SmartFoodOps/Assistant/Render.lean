/-
Explanations, written from templates.

* `Bucket`, `Template`, `en`, `lookup` — the copy, by reason and by how long the stage has taken;
* `contextFor`, `fill`, `render` — the facts that it may draw on, and what becomes of a template;
* `Silent` — a text that neither speaks of a cancellation nor of the money;
* `Candid` — a text that speaks of a cancellation, and says its money sentence and no other;
* `fill_en`, `render_en` — a verdict with the facts of its reason is rendered as one of the two.
-/
import SmartFoodOps.Lib.Phrase
import SmartFoodOps.Assistant.Explain

namespace Assistant.Explain

/-! ### The copy -/

/-- How long the current stage has taken; past its deadline, whatever the clock says. -/
inductive Bucket
  | justNow
  | short
  | extended
  | long
  | overdue
  | unknown
  deriving DecidableEq, Repr

def bucketFor (v : Verdict) : Bucket :=
  if v.overdue = some true then .overdue
  else match v.stageElapsedS with
    | none => .unknown
    | some elapsed =>
      if elapsed < 60 then .justNow
      else if elapsed < 5 * 60 then .short
      else if elapsed < 15 * 60 then .extended
      else .long

def handoff : String :=
  "We can't tell you exactly what's happening with this order right now. Support can look into it for you."

def holdReleased : String := "Your card hold has been released."

def holdReleasing : String := "Your card hold is being released."

def neverCharged : String := "You won't be charged."

/-- `money_sentence`: nothing, where nobody recorded whether money was held. -/
def moneySentence (held : Option Bool) (unwindDone : Bool) : String :=
  match held with
  | none => ""
  | some false => neverCharged
  | some true => if unwindDone then holdReleased else holdReleasing

/-- The names that stand in braces. -/
inductive Field
  | money
  | elapsed
  | active
  deriving DecidableEq, Repr

inductive Piece
  | text (s : String)
  | field (f : Field)
  deriving DecidableEq, Repr

abbrev Template := List Piece

/-- `_EN`; the default of a reason stands under no bucket. -/
def en : ReasonCode → Option Bucket → Option Template
  | .paymentInProgress, none =>
    some [.text "We're confirming your payment and reserving your items."]
  | .paymentInProgress, some .overdue =>
    some [.text "Your order is taking longer than usual to confirm. If it doesn't clear shortly it will be cancelled automatically. ",
      .field .money]
  | .awaitingRestaurant, none =>
    some [.text "Your order has been sent to the restaurant and is waiting to be accepted."]
  | .awaitingRestaurant, some .justNow =>
    some [.text "Your order has just been sent to the restaurant."]
  | .awaitingRestaurant, some .short =>
    some [.text "The restaurant has had your order for ", .field .elapsed,
      .text " and hasn't accepted it yet."]
  | .awaitingRestaurant, some .overdue =>
    some [.text "The restaurant hasn't accepted your order within its decision window. It will be cancelled automatically. ",
      .field .money]
  | .kitchenNotStarted, none =>
    some [.text "The restaurant has accepted your order and hasn't started cooking yet."]
  | .kitchenNotStarted, some .short | .kitchenNotStarted, some .extended =>
    some [.text "The restaurant accepted your order ", .field .elapsed,
      .text " ago and hasn't started cooking yet."]
  | .kitchenNotStarted, some .long =>
    some [.text "The restaurant accepted your order ", .field .elapsed,
      .text " ago and still hasn't started cooking. If you'd like to cancel, you can do that from this order."]
  | .kitchenPreparing, none => some [.text "The kitchen is preparing your order."]
  | .kitchenPreparing, some .short | .kitchenPreparing, some .extended =>
    some [.text "The kitchen has been preparing your order for ", .field .elapsed, .text "."]
  | .kitchenPreparing, some .long =>
    some [.text "The kitchen has been preparing your order for ", .field .elapsed,
      .text ". We don't have an estimate for when it will be ready."]
  | .kitchenBusy, none =>
    some [.text "The kitchen is at capacity — it's working through ", .field .active,
      .text " orders at once, so yours is taking longer than usual."]
  | .kitchenBusy, some .long =>
    some [.text "The kitchen is at capacity — ", .field .active,
      .text " orders at once — and has had yours for ", .field .elapsed,
      .text ". We don't have an estimate for when it will be ready."]
  | .awaitingCourier, none =>
    some [.text "Your food is ready and we're finding a courier to collect it."]
  | .awaitingCourier, some .short | .awaitingCourier, some .extended =>
    some [.text "Your food has been ready for ", .field .elapsed,
      .text " and we're still finding a courier to collect it."]
  | .awaitingCourier, some .overdue =>
    some [.text "Your food is ready but we couldn't find a courier in time. The order will be cancelled. ",
      .field .money]
  | .courierOnTheWay, none => some [.text "A courier is on the way to collect your order."]
  | .courierOnTheWay, some .short =>
    some [.text "A courier has been on the way to collect your order for ", .field .elapsed,
      .text "."]
  | .courierOnTheWay, some .overdue =>
    some [.text "The courier assigned to your order hasn't collected it yet."]
  | .inTransit, none => some [.text "Your order is on its way to you."]
  | .inTransit, some .short | .inTransit, some .extended =>
    some [.text "Your order has been on its way to you for ", .field .elapsed, .text "."]
  | .inTransit, some .long =>
    some [.text "Your order has been with the courier for ", .field .elapsed,
      .text ". If something looks wrong, support can reach them directly."]
  | .delivered, none => some [.text "Your order was delivered."]
  | .refunded, none => some [.text "Your order was refunded."]
  | .cancelledByCustomer, none => some [.text "You cancelled this order. ", .field .money]
  | .cancelledByRestaurant, none =>
    some [.text "The restaurant couldn't take this order, so it was cancelled. ", .field .money]
  | .cancelledRestaurantSilent, none =>
    some [.text "The restaurant didn't respond in time, so the order was cancelled automatically. ",
      .field .money]
  | .cancelledItemUnavailable, none =>
    some [.text "Something in your order had just run out, so the order was cancelled. ",
      .field .money]
  | .cancelledKitchenFull, none =>
    some [.text "The kitchen was at capacity and couldn't take another order, so this one was cancelled. ",
      .field .money]
  | .cancelledPaymentDeclined, none =>
    some [.text "Your payment was declined, so the order was cancelled. ", .field .money,
      .text " You can try again with a different card."]
  | .cancelledNoCourier, none =>
    some [.text "Your food was ready but we couldn't find a courier in time, so the order was cancelled. ",
      .field .money]
  | .cancelledSystem, none =>
    some [.text "We couldn't complete this order and cancelled it. ", .field .money,
      .text " Please try again."]
  | .unknown, none => some [.text handoff]
  | _, _ => none

/-- `BASE_LOCALE`. -/
def baseLocale : String := "en"

/-- `_TEMPLATES`. -/
def templates (locale : String) : Option (ReasonCode → Option Bucket → Option Template) :=
  if locale = baseLocale then some en else none

/-- The copy of a locale: the bucket's, or the reason's default. -/
def copyIn (locale : String) (reason : ReasonCode) (bucket : Bucket) : Option Template :=
  (templates locale).bind fun copy => (copy reason (some bucket)).or (copy reason none)

/-- `TemplateCache.get`: in the locale, or else in English. -/
def lookup (reason : ReasonCode) (locale : String) (bucket : Bucket) : Option Template :=
  (copyIn locale reason bucket).or (copyIn baseLocale reason bucket)

/-! ### Rendering -/

/-- What stands for the names in braces. -/
structure Context where
  money : Option String
  elapsed : Option String
  active : Option String
  deriving DecidableEq

def Context.get (c : Context) : Field → Option String
  | .money => c.money
  | .elapsed => c.elapsed
  | .active => c.active

/-- A duration in whole minutes, and at least one. -/
def minutesText (elapsedS : ℕ) : String :=
  let minutes := max 1 (elapsedS / 60)
  toString minutes ++ " " ++ if minutes = 1 then "minute" else "minutes"

/-- `context_for`. -/
def contextFor (v : Verdict) : Context where
  money := v.facts.paymentHeld.map fun held => moneySentence held (v.facts.unwindDone.getD true)
  elapsed := v.stageElapsedS.map minutesText
  active := v.facts.active.map toString

/-- `format_map`; `none` is the `KeyError` of a name that is not in the context. -/
def fill (c : Context) : Template → Option String
  | [] => some ""
  | .text s :: rest => (fill c rest).map fun filled => s ++ filled
  | .field f :: rest => (c.get f).bind fun s => (fill c rest).map fun filled => s ++ filled

inductive Source
  | template
  | fallback
  deriving DecidableEq, Repr

structure Explanation where
  text : String
  reason : ReasonCode
  bucket : Bucket
  locale : String
  source : Source
  deriving DecidableEq

def render (v : Verdict) (locale : String) : Explanation :=
  let bucket := bucketFor v
  match (lookup v.reason locale bucket).bind (fill (contextFor v)) with
  | some text => ⟨text, v.reason, bucket, locale, .template⟩
  | none => ⟨handoff, v.reason, bucket, locale, .fallback⟩

/-! ### What texts say -/

/-- Nothing of a cancellation, and nothing of the money. -/
structure Silent (text : String) : Prop where
  cancellation : ¬ Says text "cancelled"
  charged : ¬ Says text neverCharged
  released : ¬ Says text holdReleased
  releasing : ¬ Says text holdReleasing

/-- It speaks of a cancellation, and of the sentences about money it says this one, if it is one. -/
structure Candid (text money : String) : Prop where
  cancellation : Says text "cancelled"
  charged : Says text neverCharged ↔ money = neverCharged
  released : Says text holdReleased ↔ money = holdReleased
  releasing : Says text holdReleasing ↔ money = holdReleasing

section

variable {word never released releasing : List Char} (hw : String.ofList word = "cancelled")
  (hn : String.ofList never = neverCharged) (hr : String.ofList released = holdReleased)
  (hg : String.ofList releasing = holdReleasing)

include hw hn hr hg

theorem silent_of_chars {text : List Char}
    (h : ∀ phrase ∈ [word, never, released, releasing], ¬ phrase <:+: text) :
    Silent (String.ofList text) := by
  have hsays : ∀ phrase ∈ [word, never, released, releasing],
      ¬ Says (String.ofList text) (String.ofList phrase) :=
    fun phrase hmem hs => h phrase hmem (says_ofList.mp hs)
  rw [List.forall_mem_cons, List.forall_mem_cons, List.forall_mem_cons, List.forall_mem_singleton,
    hw, hn, hr, hg] at hsays
  obtain ⟨hword, hnever, hreleased, hreleasing⟩ := hsays
  exact ⟨hword, hnever, hreleased, hreleasing⟩

theorem silent_append_of_chars {before after : List Char}
    (h : ∀ phrase ∈ [word, never, released, releasing], ¬ phrase <:+: before ++ after) :
    Silent (String.ofList before ++ String.ofList after) := by
  rw [← String.ofList_append]
  exact silent_of_chars hw hn hr hg h

/-- A text with a place for a money sentence, read with each of them. -/
theorem candid_of_chars {before after : List Char} (held : Option Bool) (unwindDone : Bool)
    (h : ∀ m ∈ [[], never, released, releasing], word <:+: before ++ (m ++ after) ∧
      ∀ sentence ∈ [never, released, releasing],
        (sentence <:+: before ++ (m ++ after) ↔ String.ofList m = String.ofList sentence)) :
    Candid (String.ofList before ++ (moneySentence held unwindDone ++ String.ofList after))
      (moneySentence held unwindDone) := by
  obtain ⟨m, hm, hmoney⟩ : ∃ m ∈ [[], never, released, releasing],
      String.ofList m = moneySentence held unwindDone := by
    rcases held with _ | _ | _
    · exact ⟨[], by simp, rfl⟩
    · exact ⟨never, by simp, hn⟩
    · rcases unwindDone with _ | _
      · exact ⟨releasing, by simp, hg⟩
      · exact ⟨released, by simp, hr⟩
  obtain ⟨hword, hsentences⟩ := h m hm
  have hsays : ∀ sentence ∈ [never, released, releasing],
      (Says (String.ofList before ++ (String.ofList m ++ String.ofList after))
        (String.ofList sentence) ↔ String.ofList m = String.ofList sentence) := by
    intro sentence hmem
    rw [← String.ofList_append, ← String.ofList_append, says_ofList]
    exact hsentences sentence hmem
  rw [List.forall_mem_cons, List.forall_mem_cons, List.forall_mem_singleton, hn, hr, hg,
    hmoney] at hsays
  obtain ⟨hnever, hreleased, hreleasing⟩ := hsays
  refine ⟨?_, hnever, hreleased, hreleasing⟩
  rw [← hw, ← hmoney, ← String.ofList_append, ← String.ofList_append, says_ofList]
  exact hword

end

/-- **A numeral between two silent texts.** -/
theorem silent_numeral {before after numeral : String} (hn : Phrase.Numeral numeral)
    (hb : Silent before) (ha : Silent after) : Silent (before ++ (numeral ++ after)) := by
  have hnot : ∀ {phrase : String} {chars : List Char}, String.ofList chars = phrase →
      Phrase.Wordy chars → ¬ Says before phrase → ¬ Says after phrase →
      ¬ Says (before ++ (numeral ++ after)) phrase := by
    rintro _ chars rfl hwordy hbefore hafter
    rw [Phrase.says_numeral (by rw [String.toList_ofList]; exact hwordy) hn]
    exact fun h => h.elim hbefore hafter
  exact ⟨hnot rfl (by decide) hb.cancellation ha.cancellation,
    hnot rfl (by decide) hb.charged ha.charged, hnot rfl (by decide) hb.released ha.released,
    hnot rfl (by decide) hb.releasing ha.releasing⟩

/-- A duration between two texts. -/
theorem silent_minutes {before after : String} (elapsedS : ℕ) (hb : Silent before)
    (hone : Silent (" minute" ++ after)) (hmany : Silent (" minutes" ++ after)) :
    Silent (before ++ (minutesText elapsedS ++ after)) := by
  unfold minutesText
  dsimp only
  split
  · rw [String.append_assoc, String.append_assoc]
    exact silent_numeral (Phrase.numeral_nat _) hb hone
  · rw [String.append_assoc, String.append_assoc]
    exact silent_numeral (Phrase.numeral_nat _) hb hmany

/-! ### What templates say -/

/-- The copy that speaks of a cancellation, past or predicted. -/
def speaks : ReasonCode → Option Bucket → Bool
  | .paymentInProgress, bucket | .awaitingRestaurant, bucket | .awaitingCourier, bucket =>
    bucket = some .overdue
  | .cancelledByCustomer, _ | .cancelledByRestaurant, _ | .cancelledRestaurantSilent, _
  | .cancelledItemUnavailable, _ | .cancelledKitchenFull, _ | .cancelledPaymentDeclined, _
  | .cancelledNoCourier, _ | .cancelledSystem, _ => true
  | _, _ => false

/-- The copy that tells how long a stage has taken. -/
def isTimed (bucket : Option Bucket) : Bool :=
  bucket = some .short || bucket = some .extended || bucket = some .long

section

variable {c : Context} {a b d : String} {elapsedS : ℕ} {n : ℤ} {held : Option Bool}
  {unwindDone : Bool}

theorem fill_nil : fill c [] = some "" := rfl

theorem fill_text {rest : Template} :
    fill c (.text a :: rest) = (fill c rest).map fun filled => a ++ filled := rfl

theorem fill_field {f : Field} {rest : Template} (h : c.get f = some a) :
    fill c (.field f :: rest) = (fill c rest).map fun filled => a ++ filled := by
  show (c.get f).bind _ = _
  rw [h]
  rfl

theorem fill_plain (h : Silent a) : ∃ text, fill c [.text a] = some text ∧ Silent text :=
  ⟨a ++ "", rfl, by rw [String.append_empty]; exact h⟩

theorem fill_elapsed (hc : c.elapsed = some (minutesText elapsedS)) (hb : Silent a)
    (hone : Silent (" minute" ++ b)) (hmany : Silent (" minutes" ++ b)) :
    ∃ text, fill c [.text a, .field .elapsed, .text b] = some text ∧ Silent text := by
  refine ⟨a ++ (minutesText elapsedS ++ b), ?_, silent_minutes elapsedS hb hone hmany⟩
  simp only [fill_text, fill_field (f := .elapsed) hc, fill_nil, Option.map_some,
    String.append_empty]

theorem fill_active (hc : c.active = some (toString n)) (ha : Silent a) (hb : Silent b) :
    ∃ text, fill c [.text a, .field .active, .text b] = some text ∧ Silent text := by
  refine ⟨a ++ (toString n ++ b), ?_, silent_numeral (Phrase.numeral_int n) ha hb⟩
  simp only [fill_text, fill_field (f := .active) hc, fill_nil, Option.map_some,
    String.append_empty]

theorem fill_activeElapsed (hn : c.active = some (toString n))
    (hc : c.elapsed = some (minutesText elapsedS)) (ha : Silent a) (hb : Silent b)
    (hone : Silent (" minute" ++ d)) (hmany : Silent (" minutes" ++ d)) :
    ∃ text, fill c [.text a, .field .active, .text b, .field .elapsed, .text d] = some text ∧
      Silent text := by
  refine ⟨a ++ (toString n ++ (b ++ (minutesText elapsedS ++ d))), ?_,
    silent_numeral (Phrase.numeral_int n) ha (silent_minutes elapsedS hb hone hmany)⟩
  simp only [fill_text, fill_field (f := .active) hn, fill_field (f := .elapsed) hc, fill_nil,
    Option.map_some, String.append_empty]

theorem fill_money (hc : c.money = some (moneySentence held unwindDone))
    (h : Candid (a ++ (moneySentence held unwindDone ++ "")) (moneySentence held unwindDone)) :
    ∃ text, fill c [.text a, .field .money] = some text ∧
      Candid text (moneySentence held unwindDone) := by
  refine ⟨_, ?_, h⟩
  simp only [fill_text, fill_field (f := .money) hc, fill_nil, Option.map_some]

theorem fill_moneyThen (hc : c.money = some (moneySentence held unwindDone))
    (h : Candid (a ++ (moneySentence held unwindDone ++ b)) (moneySentence held unwindDone)) :
    ∃ text, fill c [.text a, .field .money, .text b] = some text ∧
      Candid text (moneySentence held unwindDone) := by
  refine ⟨_, ?_, h⟩
  simp only [fill_text, fill_field (f := .money) hc, fill_nil, Option.map_some,
    String.append_empty]

/-- **The copy**: with the facts of its reason, a template is filled in; and it says its money
sentence if it speaks of a cancellation, or else nothing. -/
theorem fill_en {reason : ReasonCode} {bucket : Option Bucket} {t : Template}
    (helapsed : isTimed bucket = true → c.elapsed = some (minutesText elapsedS))
    (hactive : reason = .kitchenBusy → c.active = some (toString n))
    (hmoney : speaks reason bucket = true → c.money = some (moneySentence held unwindDone))
    (h : en reason bucket = some t) :
    (speaks reason bucket = false ∧ ∃ text, fill c t = some text ∧ Silent text) ∨
      speaks reason bucket = true ∧ ∃ text, fill c t = some text ∧
        Candid text (moneySentence held unwindDone) := by
  unfold en at h
  split at h <;> cases h
  -- each of the templates is of one of six shapes
  all_goals first
    | exact .inl ⟨rfl, fill_plain (silent_of_chars rfl rfl rfl rfl (by decide +kernel))⟩
    | exact .inl ⟨rfl, fill_elapsed (helapsed rfl)
        (silent_of_chars rfl rfl rfl rfl (by decide +kernel))
        (silent_append_of_chars rfl rfl rfl rfl (by decide +kernel))
        (silent_append_of_chars rfl rfl rfl rfl (by decide +kernel))⟩
    | exact .inl ⟨rfl, fill_active (hactive rfl)
        (silent_of_chars rfl rfl rfl rfl (by decide +kernel))
        (silent_of_chars rfl rfl rfl rfl (by decide +kernel))⟩
    | exact .inl ⟨rfl, fill_activeElapsed (hactive rfl) (helapsed rfl)
        (silent_of_chars rfl rfl rfl rfl (by decide +kernel))
        (silent_of_chars rfl rfl rfl rfl (by decide +kernel))
        (silent_append_of_chars rfl rfl rfl rfl (by decide +kernel))
        (silent_append_of_chars rfl rfl rfl rfl (by decide +kernel))⟩
    | exact .inr ⟨rfl, fill_money (hmoney rfl)
        (candid_of_chars rfl rfl rfl rfl held unwindDone (by decide +kernel))⟩
    | exact .inr ⟨rfl, fill_moneyThen (hmoney rfl)
        (candid_of_chars rfl rfl rfl rfl held unwindDone (by decide +kernel))⟩

end

/-- There is copy for every reason: the bucket's own, or the default. -/
theorem exists_copy (reason : ReasonCode) (bucket : Bucket) : ∃ bucket' t,
    (bucket' = some bucket ∨ bucket' = none) ∧ lookup reason baseLocale bucket = some t ∧
      en reason bucket' = some t ∧ speaks reason bucket' = speaks reason (some bucket) := by
  cases reason <;> cases bucket <;> first
    | exact ⟨some _, _, .inl rfl, rfl, rfl, rfl⟩
    | exact ⟨none, _, .inr rfl, rfl, rfl, rfl⟩

/-- A locale without copy of its own is answered in English. -/
theorem lookup_locale (reason : ReasonCode) (locale : String) (bucket : Bucket) :
    lookup reason locale bucket = lookup reason baseLocale bucket := by
  unfold lookup
  by_cases hl : locale = baseLocale
  · rw [hl]
  · have hnone : copyIn locale reason bucket = none := by
      unfold copyIn templates
      rw [if_neg hl, Option.bind_none]
    rw [hnone, Option.none_or, Option.or_self]

variable {v : Verdict} {locale : String} {held : Option Bool} {unwindDone : Bool}

/-- A stage that is timed has taken some time. -/
theorem stageElapsedS_of_isTimed (h : isTimed (some (bucketFor v)) = true) :
    ∃ elapsedS, v.stageElapsedS = some elapsedS := by
  rcases he : v.stageElapsedS with _ | elapsedS
  · unfold bucketFor at h
    rw [he] at h
    split at h <;> exact absurd h (by decide)
  · exact ⟨elapsedS, rfl⟩

/-- **Every verdict renders**: from a template, that is silent unless it speaks of a cancellation,
and then says the money sentence that the facts tell. -/
theorem render_en (hactive : v.reason = .kitchenBusy → v.facts.active.isSome = true)
    (hmoney : speaks v.reason (some (bucketFor v)) = true →
      v.facts.paymentHeld = some held ∧ v.facts.unwindDone.getD true = unwindDone) :
    (render v locale).source = .template ∧
      (speaks v.reason (some (bucketFor v)) = false ∧ Silent (render v locale).text ∨
        speaks v.reason (some (bucketFor v)) = true ∧
          Candid (render v locale).text (moneySentence held unwindDone)) := by
  obtain ⟨bucket', t, hbucket, hlookup, hen, hspeaks⟩ := exists_copy v.reason (bucketFor v)
  have helapsed : isTimed bucket' = true →
      (contextFor v).elapsed = some (minutesText (v.stageElapsedS.getD 0)) := by
    intro htimed
    rcases hbucket with rfl | rfl
    · obtain ⟨elapsedS, he⟩ := stageElapsedS_of_isTimed htimed
      simp only [contextFor, he, Option.map_some, Option.getD_some]
    · exact absurd htimed (by decide)
  have hact : v.reason = .kitchenBusy →
      (contextFor v).active = some (toString (v.facts.active.getD 0)) := by
    intro hbusy
    obtain ⟨n, hn⟩ := Option.isSome_iff_exists.mp (hactive hbusy)
    simp only [contextFor, hn, Option.map_some, Option.getD_some]
  have hmon : speaks v.reason bucket' = true →
      (contextFor v).money = some (moneySentence held unwindDone) := by
    intro hs
    obtain ⟨hheld, hdone⟩ := hmoney (hspeaks ▸ hs)
    simp only [contextFor, hheld, hdone, Option.map_some]
  have hrender : ∀ text, fill (contextFor v) t = some text →
      render v locale = ⟨text, v.reason, bucketFor v, locale, .template⟩ := by
    intro text htext
    unfold render
    dsimp only
    rw [lookup_locale, hlookup, Option.bind_some, htext]
  rw [← hspeaks]
  rcases fill_en helapsed hact hmon hen with ⟨hs, text, htext, hsilent⟩ | ⟨hs, text, htext, hcandid⟩
  · rw [hrender text htext]
    exact ⟨rfl, .inl ⟨hs, hsilent⟩⟩
  · rw [hrender text htext]
    exact ⟨rfl, .inr ⟨hs, hcandid⟩⟩

end Assistant.Explain
