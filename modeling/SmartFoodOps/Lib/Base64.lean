/-
Base64, in the alphabet that is safe in URLs.

* `letter`, `value` — six bits and their letter;
* `encode` — three bytes are four letters, and what is left is padded;
* `decode` — letter by letter; what is no letter is passed over;
* `decode_encode` — bytes come back.
-/
import Mathlib.Data.Nat.Notation
import Mathlib.Data.List.Basic

namespace Base64

/-- The letter of six bits. -/
def letter (v : ℕ) : Char :=
  if v < 26 then Char.ofNat (65 + v)
  else if v < 52 then Char.ofNat (71 + v)
  else if v < 62 then Char.ofNat (v - 4)
  else if v = 62 then '-'
  else '_'

/-- The six bits of a letter, in this alphabet or the other one. -/
def value (c : Char) : Option ℕ :=
  if 65 ≤ c.toNat ∧ c.toNat ≤ 90 then some (c.toNat - 65)
  else if 97 ≤ c.toNat ∧ c.toNat ≤ 122 then some (c.toNat - 71)
  else if 48 ≤ c.toNat ∧ c.toNat ≤ 57 then some (c.toNat + 4)
  else if c = '-' ∨ c = '+' then some 62
  else if c = '_' ∨ c = '/' then some 63
  else none

def encode : List ℕ → List Char
  | a :: b :: c :: rest =>
    letter (a / 4) :: letter (a % 4 * 16 + b / 16) :: letter (b % 16 * 4 + c / 64) ::
      letter (c % 64) :: encode rest
  | [a, b] => [letter (a / 4), letter (a % 4 * 16 + b / 16), letter (b % 16 * 4), '=']
  | [a] => [letter (a / 4), letter (a % 4 * 16), '=', '=']
  | [] => []

/-- The rest of a text, from a position in its group of four: `left` are the bits that wait for more,
`pads` the padding seen. -/
def decodeFrom (pos left pads : ℕ) : List Char → Option (List ℕ)
  | [] => if pos = 0 then some [] else none
  | c :: rest =>
    if c = '=' then
      if 2 ≤ pos then
        if 4 ≤ pos + (pads + 1) then some [] else decodeFrom pos left (pads + 1) rest
      else decodeFrom pos left pads rest
    else
      match value c with
      | none => decodeFrom pos left pads rest
      | some v =>
        match pos with
        | 0 => decodeFrom 1 v 0 rest
        | 1 => (decodeFrom 2 (v % 16) 0 rest).map ((left * 4 + v / 16) :: ·)
        | 2 => (decodeFrom 3 (v % 4) 0 rest).map ((left * 16 + v / 4) :: ·)
        | _ => (decodeFrom 0 0 0 rest).map ((left * 64 + v) :: ·)

def decode (cs : List Char) : Option (List ℕ) := decodeFrom 0 0 0 cs

variable {left pads v : ℕ} {rest : List Char} {bytes : List ℕ}

theorem value_letter : ∀ v < 64, value (letter v) = some v ∧ letter v ≠ '=' := by decide

/-- A letter, at its position in the group. -/
theorem decodeFrom_letter {pos : ℕ} (hv : v < 64) :
    decodeFrom pos left pads (letter v :: rest) =
      match pos with
      | 0 => decodeFrom 1 v 0 rest
      | 1 => (decodeFrom 2 (v % 16) 0 rest).map ((left * 4 + v / 16) :: ·)
      | 2 => (decodeFrom 3 (v % 4) 0 rest).map ((left * 16 + v / 4) :: ·)
      | _ => (decodeFrom 0 0 0 rest).map ((left * 64 + v) :: ·) := by
  obtain ⟨hvalue, hpad⟩ := value_letter v hv
  rw [decodeFrom, if_neg hpad, hvalue]

theorem decodeFrom_zero (hv : v < 64) :
    decodeFrom 0 left pads (letter v :: rest) = decodeFrom 1 v 0 rest := decodeFrom_letter hv

theorem decodeFrom_one (hv : v < 64) : decodeFrom 1 left pads (letter v :: rest) =
    (decodeFrom 2 (v % 16) 0 rest).map ((left * 4 + v / 16) :: ·) := decodeFrom_letter hv

theorem decodeFrom_two (hv : v < 64) : decodeFrom 2 left pads (letter v :: rest) =
    (decodeFrom 3 (v % 4) 0 rest).map ((left * 16 + v / 4) :: ·) := decodeFrom_letter hv

theorem decodeFrom_three (hv : v < 64) : decodeFrom 3 left pads (letter v :: rest) =
    (decodeFrom 0 0 0 rest).map ((left * 64 + v) :: ·) := decodeFrom_letter hv

/-- **Bytes come back.**  The induction takes three bytes at a time. -/
theorem decode_encode (h : ∀ b ∈ bytes, b < 256) : decode (encode bytes) = some bytes := by
  unfold decode
  induction bytes using encode.induct with
  | case1 a b c rest ih =>
    obtain ⟨ha, hb, hc, hrest⟩ : a < 256 ∧ b < 256 ∧ c < 256 ∧ ∀ x ∈ rest, x < 256 := by
      simpa using h
    rw [encode, decodeFrom_zero (by omega), decodeFrom_one (by omega), decodeFrom_two (by omega),
      decodeFrom_three (by omega), ih hrest]
    have hfirst : a / 4 * 4 + (a % 4 * 16 + b / 16) / 16 = a := by omega
    have hsecond : (a % 4 * 16 + b / 16) % 16 * 16 + (b % 16 * 4 + c / 64) / 4 = b := by omega
    have hthird : (b % 16 * 4 + c / 64) % 4 * 64 + c % 64 = c := by omega
    rw [Option.map_some, Option.map_some, Option.map_some, hfirst, hsecond, hthird]
  | case2 a b =>
    obtain ⟨ha, hb⟩ : a < 256 ∧ b < 256 := by simpa using h
    have hpad : decodeFrom 3 (b % 16 * 4 % 4) 0 ['='] = some [] := rfl
    have hfirst : a / 4 * 4 + (a % 4 * 16 + b / 16) / 16 = a := by omega
    have hsecond : (a % 4 * 16 + b / 16) % 16 * 16 + b % 16 * 4 / 4 = b := by omega
    rw [encode, decodeFrom_zero (by omega), decodeFrom_one (by omega), decodeFrom_two (by omega),
      hpad, Option.map_some, Option.map_some, hfirst, hsecond]
  | case3 a =>
    have ha : a < 256 := by simpa using h
    have hpad : decodeFrom 2 (a % 4 * 16 % 16) 0 ['=', '='] = some [] := rfl
    have hfirst : a / 4 * 4 + a % 4 * 16 / 16 = a := by omega
    rw [encode, decodeFrom_zero (by omega), decodeFrom_one (by omega), hpad, Option.map_some,
      hfirst]
  | case4 => rfl

end Base64
