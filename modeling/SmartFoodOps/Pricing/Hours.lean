/-
Opening hours: whether a restaurant's posted schedule has it open now.

* `Value`, `Point` — what stands in a schedule, which is JSON that nobody has checked;
* `int`, `parseHhmm`, `windows` — the points of a day, read in pairs;
* `isOpenAt` — the windows of today, and those of yesterday that run past midnight;
* `Covers` — a window as an arc on the circle of the week;
* `covers_iff` — an arc is shorter than a day, so it touches its own day and the next;
* `isOpenAt_iff` — a restaurant with a schedule is open exactly if an arc covers the instant.

The decimal digits of Unicode are a parameter, and so is the zone database: what an instant is
called at a place.  A time of day is in microseconds.
-/
import SmartFoodOps.Auth.Context
import SmartFoodOps.Lib.Dict
import Mathlib.Data.Int.Notation
import Mathlib.Data.List.Induction

open Auth

namespace Pricing

namespace Hours

/-! ### Schedules -/

/-- A point of a day: a text, or something else. -/
inductive Point
  | str (s : String)
  | other
  deriving DecidableEq

/-- What a day's entry may be. -/
inductive Value
  | null
  | list (points : List Point)
  | other
  deriving DecidableEq

/-- What `int` skips at both ends. -/
def isBlank (c : Char) : Bool := Text.isSpace c && !(28 ≤ c.toNat && c.toNat ≤ 31)

section

variable (digit : Char → Option ℕ)

/-- Digits, with single underscores between them; not more than `int` converts. -/
def magnitude (cs : List Char) : Option ℕ :=
  let parts := cs.splitOn '_'
  if parts.any List.isEmpty then none
  else
    match parts.flatten.mapM digit with
    | none => none
    | some digits =>
      if 4300 < digits.length then none
      else some (digits.foldl (fun n d => 10 * n + d) 0)

/-- `int(s)`, or nothing where it raises `ValueError`. -/
def int (s : String) : Option ℤ :=
  match ((s.toList.dropWhile isBlank).reverse.dropWhile isBlank).reverse with
  | '+' :: rest => (magnitude digit rest).map fun n => (n : ℤ)
  | '-' :: rest => (magnitude digit rest).map fun n => -(n : ℤ)
  | cs => (magnitude digit cs).map fun n => (n : ℤ)

/-- `time(hour, minute)`. -/
def time (hour minute : ℕ) : ℕ := (60 * hour + minute) * 60000000

/-- `_parse_hhmm`. -/
def parseHhmm : Point → Option ℕ
  | .other => none
  | .str value =>
    match Text.split ':' value with
    | [h, m] =>
      match int digit h, int digit m with
      | some hour, some minute =>
        if (0 ≤ hour ∧ hour ≤ 23) ∧ 0 ≤ minute ∧ minute ≤ 59 then
          some (time hour.toNat minute.toNat)
        else none
      | _, _ => none
    | _ => none

/-- The points of a day in pairs, from opening to closing. -/
def pairs : List Point → Option (List (ℕ × ℕ))
  | opens :: closes :: rest =>
    match parseHhmm digit opens, parseHhmm digit closes with
    | some o, some c => (pairs rest).map ((o, c) :: ·)
    | _, _ => none
  | _ => some []

/-- `_windows`. -/
def windows : Value → Option (List (ℕ × ℕ))
  | .list points => if points.length % 2 ≠ 0 then none else pairs digit points
  | _ => none

/-! ### The question -/

/-- What the clock on the wall says. -/
structure WallClock where
  weekday : ℕ
  time : ℕ
  bounded : weekday < 7 ∧ time < 86400000000

def days : List String := ["mon", "tue", "wed", "thu", "fri", "sat", "sun"]

/-- `hours.get(_DAYS[weekday])`. -/
def entry (hours : Dict String Value) (weekday : ℕ) : Value :=
  (hours.get (days.getD weekday "mon")).getD .null

/-- A window of today has the place open. -/
def openToday (now : ℕ) (w : ℕ × ℕ) : Bool :=
  if w.1 ≤ w.2 then decide (w.1 ≤ now ∧ now < w.2)
  else decide (w.1 ≤ now)  -- overnight, in its first half

/-- A window of yesterday still has the place open. -/
def openSinceYesterday (now : ℕ) (w : ℕ × ℕ) : Bool := decide (w.2 < w.1 ∧ now < w.2)

/-- `is_open_at`: what cannot be read is open. -/
def isOpenAt {Instant : Type} (astimezone : String → Instant → Option WallClock)
    (hours : Option (Dict String Value)) (timezone : String) (now : Instant) : Bool :=
  match hours with
  | none => true
  | some hours =>
    if hours.entries = [] then true
    else
      match astimezone timezone now with
      | none => true
      | some here =>
        let today := windows digit (entry hours here.weekday)
        let yesterday := windows digit (entry hours ((here.weekday + 6) % 7))
        if today = none ∧ entry hours here.weekday ≠ .null then true
        else (today.getD []).any (openToday here.time) ||
          (yesterday.getD []).any (openSinceYesterday here.time)

end

/-! ### The circle of the week -/

/-- The window of a day holds an instant: the instant comes less than the window's length after its
opening, around the week. -/
def Covers (weekday : ℕ) (w : ℕ × ℕ) (here : WallClock) : Prop :=
  let opening : ℤ := weekday * 86400000000 + w.1
  let instant : ℤ := here.weekday * 86400000000 + here.time
  (instant - opening) % 604800000000 < ((w.2 : ℤ) - w.1) % 86400000000

instance (weekday : ℕ) (w : ℕ × ℕ) (here : WallClock) : Decidable (Covers weekday w here) :=
  inferInstanceAs (Decidable (_ < _))

variable {digit : Char → Option ℕ} {hours : Dict String Value} {here : WallClock} {d : ℕ}
  {w : ℕ × ℕ}

/-- **An arc of less than a day** touches its own day and the next one. -/
theorem covers_iff (hd : d < 7) (hw : w.1 < 86400000000 ∧ w.2 < 86400000000) :
    Covers d w here ↔
      d = here.weekday ∧ openToday here.time w = true ∨
      d = (here.weekday + 6) % 7 ∧ openSinceYesterday here.time w = true := by
  obtain ⟨o, c⟩ := w
  obtain ⟨v, t, hv, ht⟩ := here
  unfold Covers openToday openSinceYesterday
  dsimp only at hw ⊢
  split
  · simp only [decide_eq_true_eq]
    omega
  · simp only [decide_eq_true_eq]
    omega

/-! ### Readable schedules -/

theorem parseHhmm_lt {p : Point} {t : ℕ} (h : parseHhmm digit p = some t) : t < 86400000000 := by
  unfold parseHhmm at h
  split at h
  · cases h
  · split at h
    · split at h
      · split at h
        · next hrange =>
          cases h
          unfold time
          omega
        · cases h
      · cases h
    · cases h

/-- The induction takes two points at a time, as the code does. -/
theorem pairs_lt {points : List Point} {ws : List (ℕ × ℕ)} (h : pairs digit points = some ws) :
    ∀ w ∈ ws, w.1 < 86400000000 ∧ w.2 < 86400000000 := by
  induction points using List.twoStepInduction generalizing ws with
  | nil =>
    cases h
    simp
  | singleton opens =>
    cases h
    simp
  | cons_cons opens closes rest ih _ =>
    rw [pairs] at h
    split at h
    · next o c ho hc =>
      obtain ⟨more, hmore, rfl⟩ := Option.map_eq_some_iff.mp h
      exact List.forall_mem_cons.mpr ⟨⟨parseHhmm_lt ho, parseHhmm_lt hc⟩, ih hmore⟩
    · cases h

theorem windows_lt {v : Value} {ws : List (ℕ × ℕ)} (h : windows digit v = some ws) :
    ∀ w ∈ ws, w.1 < 86400000000 ∧ w.2 < 86400000000 := by
  unfold windows at h
  split at h
  · split at h
    · cases h
    · exact pairs_lt h
  · cases h

variable (digit hours) in
/-- Each day's entry is absent, or can be read. -/
def Readable : Prop := ∀ d < 7, entry hours d = .null ∨ ∃ ws, windows digit (entry hours d) = some ws

variable (digit hours) in
/-- The windows that a day posts. -/
def posted (d : ℕ) : List (ℕ × ℕ) := (windows digit (entry hours d)).getD []

theorem mem_posted : w ∈ posted digit hours d ↔
    ∃ ws, windows digit (entry hours d) = some ws ∧ w ∈ ws := by
  unfold posted
  rcases windows digit (entry hours d) with _ | ws
  · simp
  · simp

/-- A schedule that can be read is never passed over. -/
theorem isOpenAt_readable {Instant : Type} {astimezone : String → Instant → Option WallClock}
    {timezone : String} {now : Instant} (hreadable : Readable digit hours)
    (hzone : astimezone timezone now = some here) (hsome : hours.entries ≠ []) :
    isOpenAt digit astimezone (some hours) timezone now =
      ((posted digit hours here.weekday).any (openToday here.time) ||
        (posted digit hours ((here.weekday + 6) % 7)).any (openSinceYesterday here.time)) := by
  have hread : ¬ (windows digit (entry hours here.weekday) = none ∧
      entry hours here.weekday ≠ .null) := by
    rintro ⟨hnone, hnull⟩
    rcases hreadable here.weekday here.bounded.1 with h | ⟨ws, h⟩
    · exact hnull h
    · rw [hnone] at h
      cases h
  unfold isOpenAt
  dsimp only
  rw [if_neg hsome, hzone]
  dsimp only
  rw [if_neg hread]
  rfl

/-- **Opening hours are arcs on the circle of the week**, where there are any. -/
theorem isOpenAt_iff {Instant : Type} {astimezone : String → Instant → Option WallClock}
    {timezone : String} {now : Instant} (hreadable : Readable digit hours)
    (hzone : astimezone timezone now = some here) :
    isOpenAt digit astimezone (some hours) timezone now = true ↔
      hours.entries = [] ∨ ∃ d < 7, ∃ ws, windows digit (entry hours d) = some ws ∧
        ∃ w ∈ ws, Covers d w here := by
  by_cases hsome : hours.entries = []
  · refine iff_of_true ?_ (.inl hsome)
    unfold isOpenAt
    dsimp only
    rw [if_pos hsome]
  · rw [isOpenAt_readable hreadable hzone hsome, or_iff_right hsome, Bool.or_eq_true,
      List.any_eq_true, List.any_eq_true]
    constructor
    · rintro (⟨w, hw, hopen⟩ | ⟨w, hw, hopen⟩)
      · obtain ⟨ws, hws, hmem⟩ := mem_posted.mp hw
        have hcovers := (covers_iff here.bounded.1 (windows_lt hws w hmem)).mpr (.inl ⟨rfl, hopen⟩)
        exact ⟨_, here.bounded.1, ws, hws, w, hmem, hcovers⟩
      · have hd : (here.weekday + 6) % 7 < 7 := Nat.mod_lt _ (by decide)
        obtain ⟨ws, hws, hmem⟩ := mem_posted.mp hw
        have hcovers := (covers_iff hd (windows_lt hws w hmem)).mpr (.inr ⟨rfl, hopen⟩)
        exact ⟨_, hd, ws, hws, w, hmem, hcovers⟩
    · rintro ⟨d, hd, ws, hws, w, hmem, hcovers⟩
      have hposted : w ∈ posted digit hours d := mem_posted.mpr ⟨ws, hws, hmem⟩
      rcases (covers_iff hd (windows_lt hws w hmem)).mp hcovers with ⟨rfl, hopen⟩ | ⟨rfl, hopen⟩
      · exact .inl ⟨w, hposted, hopen⟩
      · exact .inr ⟨w, hposted, hopen⟩

/-! ### Saturday night -/

/-- The digits of ASCII. -/
def asciiDigit (c : Char) : Option ℕ := if c.isDigit then some (c.toNat - 48) else none

def saturdayNight : Dict String Value :=
  ⟨[("sat", .list [.str "18:00", .str "02:00"])], by decide⟩

def sundayAtOne : WallClock := ⟨6, 3600000000, by decide⟩

theorem isOpenAt_sundayAtOne :
    isOpenAt asciiDigit (fun _ _ => some sundayAtOne) (some saturdayNight) "Asia/Karachi" () = true := by
  have hsaturday : windows asciiDigit (entry saturdayNight 5) = some [(64800000000, 7200000000)] := by
    decide +kernel
  have hreadable : Readable asciiDigit saturdayNight := by
    intro d hd
    have hcases : d = 5 ∨ d ∈ [0, 1, 2, 3, 4, 6] := by
      simp
      omega
    rcases hcases with rfl | hd
    · exact .inr ⟨_, hsaturday⟩
    · left
      revert d
      decide
  refine (isOpenAt_iff hreadable rfl).mpr (.inr ⟨5, by decide, _, hsaturday, _,
    List.mem_cons_self, ?_⟩)
  decide

/-- A place that never posted its hours is open, though no window is. -/
theorem no_hours : ¬ ∀ (digit : Char → Option ℕ) (hours : Dict String Value) (here : WallClock)
    (timezone : String), Readable digit hours →
    (isOpenAt digit (fun _ _ => some here) (some hours) timezone () = true ↔
      ∃ d < 7, ∃ ws, windows digit (entry hours d) = some ws ∧ ∃ w ∈ ws, Covers d w here) := by
  intro h
  obtain ⟨d, -, ws, hws, -⟩ := (h asciiDigit .empty sundayAtOne "UTC" fun _ _ => .inl rfl).mp rfl
  cases hws

end Hours

end Pricing
