/-
Points in time, to the microsecond, and their ISO format.

* `Datetime` — a date and a time of day in UTC, in their order;
* `pad`, `readPad` — a number in a fixed width;
* `isoformat`, `fromisoformat`, `fromisoformat_isoformat` — the text of a point in time, which
  comes back.
-/
import Mathlib.Data.Nat.Notation
import Mathlib.Data.Nat.Basic
import Mathlib.Order.Defs.LinearOrder
import Mathlib.Order.Basic
import Mathlib.Algebra.GroupWithZero.Nat

/-! ### Points in time -/

def daysIn (year month : ℕ) : ℕ :=
  if month = 2 then
    if year % 4 = 0 ∧ (year % 100 ≠ 0 ∨ year % 400 = 0) then 29 else 28
  else if month = 4 ∨ month = 6 ∨ month = 9 ∨ month = 11 then 30
  else 31

/-- The numbers are those of a date, and of a time of day. -/
def IsDatetime (year month day hour minute second microsecond : ℕ) : Prop :=
  (1 ≤ year ∧ year ≤ 9999) ∧ (1 ≤ month ∧ month ≤ 12) ∧ (1 ≤ day ∧ day ≤ daysIn year month) ∧
    hour < 24 ∧ minute < 60 ∧ second < 60 ∧ microsecond < 1000000

instance (year month day hour minute second microsecond : ℕ) :
    Decidable (IsDatetime year month day hour minute second microsecond) :=
  inferInstanceAs (Decidable (_ ∧ _))

@[ext]
structure Datetime where
  year : ℕ
  month : ℕ
  day : ℕ
  hour : ℕ
  minute : ℕ
  second : ℕ
  microsecond : ℕ
  valid : IsDatetime year month day hour minute second microsecond
  deriving DecidableEq

namespace Datetime

theorem daysIn_le (year month : ℕ) : daysIn year month ≤ 31 := by
  unfold daysIn
  repeat' split
  all_goals decide

/-- The place of a point in time among all of them; months that are too long leave gaps. -/
def rank (d : Datetime) : ℕ :=
  (((((d.year * 13 + d.month) * 32 + d.day) * 24 + d.hour) * 60 + d.minute) * 60 + d.second) *
    1000000 + d.microsecond

theorem rank_injective : Function.Injective rank := by
  intro d e h
  obtain ⟨-, hmonth, hday, hhour, hminute, hsecond, hmicro⟩ := d.valid
  obtain ⟨-, hmonth', hday', hhour', hminute', hsecond', hmicro'⟩ := e.valid
  have hle := daysIn_le d.year d.month
  have hle' := daysIn_le e.year e.month
  unfold rank at h
  ext
  all_goals omega

instance : LinearOrder Datetime := LinearOrder.lift' rank rank_injective

end Datetime

/-! ### Numbers of a fixed width -/

/-- A number in `n` digits. -/
def pad : ℕ → ℕ → List Char
  | 0, _ => []
  | n + 1, v => Nat.digitChar (v / 10 ^ n) :: pad n (v % 10 ^ n)

def readDigit (c : Char) : Option ℕ :=
  if 48 ≤ c.toNat ∧ c.toNat ≤ 57 then some (c.toNat - 48) else none

/-- `n` digits, after those that came to `v`. -/
def readPad : ℕ → ℕ → List Char → Option (ℕ × List Char)
  | 0, v, cs => some (v, cs)
  | _ + 1, _, [] => none
  | n + 1, v, c :: cs => (readDigit c).bind fun d => readPad n (10 * v + d) cs

theorem readDigit_digitChar : ∀ d < 10, readDigit (Nat.digitChar d) = some d := by decide

theorem readPad_pad {n v w : ℕ} {rest : List Char} (h : v < 10 ^ n) :
    readPad n w (pad n v ++ rest) = some (w * 10 ^ n + v, rest) := by
  induction n generalizing v w with
  | zero =>
    have hv : v = 0 := by omega
    rw [hv, pad, List.nil_append, readPad, Nat.pow_zero, Nat.mul_one, Nat.add_zero]
  | succ n ih =>
    have hpos : 0 < 10 ^ n := Nat.pow_pos (by decide)
    have hdigit : v / 10 ^ n < 10 := Nat.div_lt_of_lt_mul (by rwa [Nat.pow_succ] at h)
    rw [pad, List.cons_append, readPad, readDigit_digitChar _ hdigit, Option.bind_some,
      ih (Nat.mod_lt v hpos)]
    have hsplit := Nat.div_add_mod v (10 ^ n)
    have hsum : (10 * w + v / 10 ^ n) * 10 ^ n + v % 10 ^ n = w * 10 ^ (n + 1) + v := by
      rw [Nat.add_mul, Nat.add_assoc, Nat.mul_comm (v / 10 ^ n), hsplit, Nat.pow_succ,
        Nat.mul_comm 10 w, Nat.mul_assoc, Nat.mul_comm 10]
    rw [hsum]

/-! ### The ISO format -/

/-- What is read as a number is the number. -/
theorem readPad_number {n v : ℕ} {rest : List Char} (h : v < 10 ^ n) :
    readPad n 0 (pad n v ++ rest) = some (v, rest) := by
  rw [readPad_pad h, Nat.zero_mul, Nat.zero_add]

/-- Takes a character off. -/
def after (c : Char) : List Char → Option (List Char)
  | [] => none
  | d :: rest => if d = c then some rest else none

@[simp] theorem after_cons (c : Char) (rest : List Char) : after c (c :: rest) = some rest :=
  if_pos rfl

/-- The microseconds are left out when there are none. -/
def fraction (microsecond : ℕ) : List Char :=
  if microsecond = 0 then [] else '.' :: pad 6 microsecond

def utc : List Char := ['+', '0', '0', ':', '0', '0']

def isoformat (d : Datetime) : List Char :=
  pad 4 d.year ++ '-' :: (pad 2 d.month ++ '-' :: (pad 2 d.day ++ 'T' :: (pad 2 d.hour ++
    ':' :: (pad 2 d.minute ++ ':' :: (pad 2 d.second ++ (fraction d.microsecond ++ utc))))))

def readFraction (cs : List Char) : Option (ℕ × List Char) :=
  match after '.' cs with
  | none => some (0, cs)
  | some rest => readPad 6 0 rest

/-- What `isoformat` writes, read. -/
def fromisoformat (cs : List Char) : Option Datetime :=
  (readPad 4 0 cs).bind fun year => (after '-' year.2).bind fun cs =>
    (readPad 2 0 cs).bind fun month => (after '-' month.2).bind fun cs =>
      (readPad 2 0 cs).bind fun day => (after 'T' day.2).bind fun cs =>
        (readPad 2 0 cs).bind fun hour => (after ':' hour.2).bind fun cs =>
          (readPad 2 0 cs).bind fun minute => (after ':' minute.2).bind fun cs =>
            (readPad 2 0 cs).bind fun second => (readFraction second.2).bind fun micro =>
              if h : IsDatetime year.1 month.1 day.1 hour.1 minute.1 second.1 micro.1 then
                if micro.2 = utc then some ⟨_, _, _, _, _, _, _, h⟩ else none
              else none

theorem readFraction_fraction {v : ℕ} (h : v < 1000000) :
    readFraction (fraction v ++ utc) = some (v, utc) := by
  unfold fraction
  by_cases hv : v = 0
  · rw [if_pos hv, hv]
    rfl
  · rw [if_neg hv, List.cons_append]
    exact readPad_number h

/-- **A point in time comes back**, to the microsecond. -/
theorem fromisoformat_isoformat (d : Datetime) : fromisoformat (isoformat d) = some d := by
  obtain ⟨hyear, hmonth, hday, hhour, hminute, hsecond, hmicro⟩ := d.valid
  have hdays := Datetime.daysIn_le d.year d.month
  unfold fromisoformat isoformat
  rw [readPad_number (by omega), Option.bind_some, after_cons, Option.bind_some,
    readPad_number (by omega), Option.bind_some, after_cons, Option.bind_some,
    readPad_number (by omega), Option.bind_some, after_cons, Option.bind_some,
    readPad_number (by omega), Option.bind_some, after_cons, Option.bind_some,
    readPad_number (by omega), Option.bind_some, after_cons, Option.bind_some,
    readPad_number (by omega), Option.bind_some, readFraction_fraction hmicro, Option.bind_some]
  exact (dif_pos d.valid).trans (if_pos rfl)
