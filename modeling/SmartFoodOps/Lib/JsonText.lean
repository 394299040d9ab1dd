/-
Pairs of strings as JSON in ASCII.

* `units` — a character in units of sixteen bits;
* `escapeUnit`, `dumps` — a string in quotes, with escapes for what is not printable ASCII;
* `readUnits`, `ofUnits`, `readString` — a string read back, escape by escape and then unit by
  unit;
* `dumpsPair`, `loadsPair`, `loads_dumps` — a list of two strings, which comes back.
-/
import Mathlib.Data.Nat.Notation
import Mathlib.Data.List.Basic

namespace JsonText

/-! ### Writing -/

def quote : Char := Char.ofNat 34

def backslash : Char := Char.ofNat 92

/-- The UTF-16 of a character. -/
def units (c : Char) : List ℕ :=
  if c.toNat < 65536 then [c.toNat]
  else [55296 + (c.toNat - 65536) / 1024, 56320 + (c.toNat - 65536) % 1024]

def hex4 (u : ℕ) : List Char :=
  [Nat.digitChar (u / 4096), Nat.digitChar (u / 256 % 16), Nat.digitChar (u / 16 % 16),
    Nat.digitChar (u % 16)]

def escapeUnit (u : ℕ) : List Char :=
  if u = 34 ∨ u = 92 then [backslash, Char.ofNat u]
  else if u = 10 then [backslash, 'n']
  else if u = 13 then [backslash, 'r']
  else if u = 9 then [backslash, 't']
  else if u = 12 then [backslash, 'f']
  else if u = 8 then [backslash, 'b']
  else if 32 ≤ u ∧ u ≤ 126 then [Char.ofNat u]
  else backslash :: 'u' :: hex4 u

def dumps (s : List Char) : List Char := quote :: ((s.flatMap units).flatMap escapeUnit ++ [quote])

def dumpsPair (a b : List Char) : List Char :=
  '[' :: (dumps a ++ ',' :: ' ' :: (dumps b ++ [']']))

/-! ### Reading -/

def unhex (c : Char) : Option ℕ :=
  if 48 ≤ c.toNat ∧ c.toNat ≤ 57 then some (c.toNat - 48)
  else if 97 ≤ c.toNat ∧ c.toNat ≤ 102 then some (c.toNat - 87)
  else if 65 ≤ c.toNat ∧ c.toNat ≤ 70 then some (c.toNat - 55)
  else none

def unhex4 (a b c d : Char) : Option ℕ :=
  (unhex a).bind fun a => (unhex b).bind fun b => (unhex c).bind fun c => (unhex d).map fun d =>
    a * 4096 + b * 256 + c * 16 + d

/-- What a letter after a backslash stands for. -/
def unescape (c : Char) : Option ℕ :=
  if c = quote ∨ c = backslash ∨ c = '/' then some c.toNat
  else if c = 'n' then some 10
  else if c = 'r' then some 13
  else if c = 't' then some 9
  else if c = 'f' then some 12
  else if c = 'b' then some 8
  else none

/-- The units up to the closing quote, and what comes after it. -/
def readUnits : List Char → Option (List ℕ × List Char)
  | [] => none
  | c :: rest =>
    if c = quote then some ([], rest)
    else if c = backslash then
      match rest with
      | [] => none
      | e :: rest =>
        if e = 'u' then
          match rest with
          | a :: b :: c :: d :: rest =>
            (unhex4 a b c d).bind fun u => (readUnits rest).map fun p => (u :: p.1, p.2)
          | _ => none
        else (unescape e).bind fun u => (readUnits rest).map fun p => (u :: p.1, p.2)
    else if c.toNat < 32 then none
    else (readUnits rest).map fun p => (units c ++ p.1, p.2)

/-- Surrogates come in pairs. -/
def ofUnits : List ℕ → Option (List Char)
  | [] => some []
  | u :: rest =>
    if 55296 ≤ u ∧ u < 56320 then
      match rest with
      | [] => none
      | v :: rest =>
        if 56320 ≤ v ∧ v < 57344 then
          (ofUnits rest).map (Char.ofNat (65536 + (u - 55296) * 1024 + (v - 56320)) :: ·)
        else none
    else if 56320 ≤ u ∧ u < 57344 then none
    else (ofUnits rest).map (Char.ofNat u :: ·)

def isBlank (c : Char) : Bool := c = ' ' || c = '\n' || c = '\r' || c = '\t'

/-- A character after blanks. -/
def expect (c : Char) (cs : List Char) : Option (List Char) :=
  match cs.dropWhile isBlank with
  | [] => none
  | d :: rest => if d = c then some rest else none

def readString (cs : List Char) : Option (List Char × List Char) :=
  (expect quote cs).bind fun cs => (readUnits cs).bind fun p =>
    (ofUnits p.1).map fun s => (s, p.2)

/-- A list of two strings, and nothing more. -/
def loadsPair (cs : List Char) : Option (List Char × List Char) :=
  (expect '[' cs).bind fun cs => (readString cs).bind fun a =>
    (expect ',' a.2).bind fun cs => (readString cs).bind fun b =>
      (expect ']' b.2).bind fun cs => if cs.all isBlank then some (a.1, b.1) else none

/-! ### What is written comes back -/

variable {u : ℕ} {us : List ℕ} {cs rest : List Char} {c : Char}

theorem unhex_digitChar : ∀ n < 16, unhex (Nat.digitChar n) = some n := by decide

theorem unhex4_hex4 (h : u < 65536) :
    unhex4 (Nat.digitChar (u / 4096)) (Nat.digitChar (u / 256 % 16)) (Nat.digitChar (u / 16 % 16))
      (Nat.digitChar (u % 16)) = some u := by
  have hsum : u / 4096 * 4096 + u / 256 % 16 * 256 + u / 16 % 16 * 16 + u % 16 = u := by omega
  unfold unhex4
  rw [unhex_digitChar _ (by omega), unhex_digitChar _ (by omega), unhex_digitChar _ (by omega),
    unhex_digitChar _ (by omega), Option.bind_some, Option.bind_some, Option.bind_some,
    Option.map_some, hsum]

theorem readUnits_escape {e : Char} (he : e ≠ 'u') (h : unescape e = some u) :
    readUnits (backslash :: e :: rest) = (readUnits rest).map fun p => (u :: p.1, p.2) := by
  rw [readUnits.eq_def]
  dsimp only
  rw [if_neg (by decide), if_pos rfl, if_neg he, h]
  rfl

theorem readUnits_hex4 (h : u < 65536) : readUnits (backslash :: 'u' :: (hex4 u ++ rest)) =
    (readUnits rest).map fun p => (u :: p.1, p.2) := by
  have hdigits : hex4 u ++ rest = Nat.digitChar (u / 4096) :: Nat.digitChar (u / 256 % 16) ::
      Nat.digitChar (u / 16 % 16) :: Nat.digitChar (u % 16) :: rest := rfl
  rw [hdigits, readUnits.eq_def]
  dsimp only
  rw [if_neg (by decide), if_pos rfl, if_pos rfl, unhex4_hex4 h]
  rfl

theorem printable_ofNat : ∀ u < 127, (Char.ofNat u).toNat = u := by decide

/-- One unit. -/
theorem readUnits_escapeUnit (h : u < 65536) : readUnits (escapeUnit u ++ rest) =
    (readUnits rest).map fun p => (u :: p.1, p.2) := by
  unfold escapeUnit
  split
  · next hspecial =>
    rcases hspecial with rfl | rfl
    · exact readUnits_escape (by decide) (by decide)
    · exact readUnits_escape (by decide) (by decide)
  · next hplain =>
    rw [not_or] at hplain
    split
    · next hu => rw [hu]; exact readUnits_escape (by decide) (by decide)
    split
    · next hu => rw [hu]; exact readUnits_escape (by decide) (by decide)
    split
    · next hu => rw [hu]; exact readUnits_escape (by decide) (by decide)
    split
    · next hu => rw [hu]; exact readUnits_escape (by decide) (by decide)
    split
    · next hu => rw [hu]; exact readUnits_escape (by decide) (by decide)
    split
    · next hprint =>
      have hnat := printable_ofNat u (by omega)
      have hquote : Char.ofNat u ≠ quote := by
        intro he
        rw [he] at hnat
        exact hplain.1 hnat.symm
      have hback : Char.ofNat u ≠ backslash := by
        intro he
        rw [he] at hnat
        exact hplain.2 hnat.symm
      have hunits : units (Char.ofNat u) = [u] := by
        unfold units
        rw [hnat, if_pos h]
      rw [List.singleton_append, readUnits.eq_def]
      dsimp only
      rw [if_neg hquote, if_neg hback, hunits, hnat, if_neg (by omega)]
      rfl
    · exact readUnits_hex4 h

/-- The units of a string, up to the quote. -/
theorem readUnits_flatMap (h : ∀ u ∈ us, u < 65536) :
    readUnits (us.flatMap escapeUnit ++ quote :: rest) = some (us, rest) := by
  induction us with
  | nil =>
    rw [List.flatMap_nil, List.nil_append, readUnits.eq_def]
    exact if_pos rfl
  | cons u us ih =>
    rw [List.flatMap_cons, List.append_assoc, readUnits_escapeUnit (h u List.mem_cons_self),
      ih fun u hu => h u (List.mem_cons_of_mem _ hu)]
    rfl

theorem toNat_lt (c : Char) : c.toNat < 55296 ∨ 57343 < c.toNat ∧ c.toNat < 1114112 := c.valid

theorem units_lt : ∀ u ∈ units c, u < 65536 := by
  have hc := toNat_lt c
  unfold units
  split
  · simpa using ‹c.toNat < 65536›
  · simp only [List.mem_cons, List.not_mem_nil, or_false, forall_eq_or_imp, forall_eq]
    omega

/-- A character, from its units. -/
theorem ofUnits_units : ofUnits (units c ++ us) = (ofUnits us).map (c :: ·) := by
  have hc := toNat_lt c
  unfold units
  split
  · rw [List.singleton_append, ofUnits.eq_def]
    dsimp only
    rw [if_neg (by omega), if_neg (by omega), Char.ofNat_toNat]
  · have hsum : 65536 + (55296 + (c.toNat - 65536) / 1024 - 55296) * 1024 +
        (56320 + (c.toNat - 65536) % 1024 - 56320) = c.toNat := by omega
    rw [List.cons_append, List.singleton_append, ofUnits.eq_def]
    dsimp only
    rw [if_pos (by omega), if_pos (by omega), hsum, Char.ofNat_toNat]

theorem ofUnits_flatMap : ofUnits (cs.flatMap units) = some cs := by
  induction cs with
  | nil => rfl
  | cons c cs ih =>
    rw [List.flatMap_cons, ofUnits_units, ih]
    rfl

theorem expect_cons (h : isBlank c = false) : expect c (c :: rest) = some rest := by
  unfold expect
  rw [List.dropWhile_cons_of_neg (by rw [h]; decide)]
  exact if_pos rfl

/-- **A string comes back.** -/
theorem readString_dumps (s : List Char) : readString (dumps s ++ rest) = some (s, rest) := by
  have hunits : ∀ u ∈ s.flatMap units, u < 65536 := by
    intro u hu
    obtain ⟨c, -, hc⟩ := List.mem_flatMap.mp hu
    exact units_lt u hc
  unfold readString dumps
  rw [List.cons_append, expect_cons (by decide), Option.bind_some, List.append_assoc,
    List.singleton_append, readUnits_flatMap hunits, Option.bind_some, ofUnits_flatMap]
  rfl

/-- **A pair of strings comes back.** -/
theorem loads_dumps (a b : List Char) : loadsPair (dumpsPair a b) = some (a, b) := by
  have hspace : readString (' ' :: (dumps b ++ [']'])) = readString (dumps b ++ [']']) := rfl
  unfold loadsPair dumpsPair
  rw [expect_cons (by decide), Option.bind_some, readString_dumps, Option.bind_some,
    expect_cons (by decide), Option.bind_some, hspace, readString_dumps, Option.bind_some,
    expect_cons (by decide), Option.bind_some]
  rfl

/-- What is written is ASCII. -/
theorem ascii_escapeUnit (h : u < 65536) : ∀ c ∈ escapeUnit u, c.toNat < 128 := by
  have hdigit : ∀ n < 16, (Nat.digitChar n).toNat < 128 := by decide
  have hsmall : ∀ n < 127, (Char.ofNat n).toNat < 128 := by decide
  have hback : backslash.toNat < 128 := by decide
  unfold escapeUnit
  repeat' split
  all_goals simp only [hex4, List.mem_cons, List.not_mem_nil, or_false, forall_eq_or_imp, forall_eq]
  · exact ⟨hback, hsmall u (by omega)⟩
  · decide
  · decide
  · decide
  · decide
  · decide
  · exact hsmall u (by omega)
  · exact ⟨hback, by decide, hdigit _ (by omega), hdigit _ (by omega), hdigit _ (by omega),
      hdigit _ (by omega)⟩

theorem ascii_dumps (s : List Char) : ∀ c ∈ dumps s, c.toNat < 128 := by
  intro c hc
  rcases List.mem_cons.mp hc with rfl | hc
  · decide
  rcases List.mem_append.mp hc with hc | hc
  · obtain ⟨u, hu, hmem⟩ := List.mem_flatMap.mp hc
    obtain ⟨d, -, hd⟩ := List.mem_flatMap.mp hu
    exact ascii_escapeUnit (units_lt u hd) c hmem
  · rw [List.mem_singleton.mp hc]
    decide

theorem ascii_dumpsPair (a b : List Char) : ∀ c ∈ dumpsPair a b, c.toNat < 128 := by
  have ha := ascii_dumps a
  have hb := ascii_dumps b
  unfold dumpsPair
  simp only [List.mem_cons, List.mem_append, List.not_mem_nil, or_false]
  rintro c (rfl | hc | rfl | rfl | hc | rfl)
  · decide
  · exact ha c hc
  · decide
  · decide
  · exact hb c hc
  · decide

end JsonText
