/-
Questions that must not reach a model.

* `allergen`, `medical`, `personal`, `safetyQuestion` — the patterns;
* `verdict` — of one text;
* `safetyCheck` — of a question, and of what was said before it.

Which characters are word characters is a parameter.  Letters are compared as an ignored case
compares them: `i`, `s` and `k` also match the four letters of other alphabets whose lower case, or
whose capital, is theirs.
-/
import SmartFoodOps.Lib.Regex
import SmartFoodOps.Assistant.Knowledge

namespace Assistant

/-- `IGNORECASE`, for a small letter of a pattern, by code point. -/
def sameLetter (x y : Char) : Bool :=
  let m := x.toNat
  let n := y.toNat
  m == n || (65 ≤ n && n ≤ 90 && m == n + 32) || (m == 0x69 && (n == 0x130 || n == 0x131)) ||
    (m == 0x73 && n == 0x17f) || (m == 0x6b && n == 0x212a)

namespace Pattern

variable (isWord : Char → Bool)

/-- `\b(…)\b`. -/
def wholeWords (patterns : List Regex) : Regex :=
  .seqs [.boundary isWord, .oneOf patterns, .boundary isWord]

def text (s : String) : Regex := .word sameLetter s

/-- An optional last letter, or space. -/
def maybe (c : Char) : Regex := .opt (.char (sameLetter c))

/-- `s\w*`. -/
def stem (s : String) : Regex := .seq (text s) (.star (.char isWord))

/-- `\s+`. -/
def spaces : Regex := .plus (.char isSpace)

end Pattern

section

variable (isWord : Char → Bool)

open Pattern

/-- `_ALLERGEN`. -/
def allergen : Regex := wholeWords isWord
  [stem isWord "allerg", stem isWord "anaphyla", text "coeliac", text "celiac",
    stem isWord "intoleran", .seq (text "peanut") (maybe 's'),
    .seqs [text "tree", maybe ' ', text "nut", maybe 's'], text "shellfish", text "gluten",
    text "lactose", text "soy", text "sesame"]

/-- `_MEDICAL`. -/
def medical : Regex := wholeWords isWord
  [stem isWord "diabet", stem isWord "hypertens", text "blood pressure", text "cholesterol",
    stem isWord "pregnan",
    .seq (text "kidney ") (.oneOf [text "disease", text "failure", .seq (text "stone") (maybe 's'),
      .seq (text "problem") (maybe 's')]),
    stem isWord "breastfeed", text "medication", text "prescription", stem isWord "chemo",
    text "doctor", text "dietitian"]

/-- `_PERSONAL`. -/
def personal : Regex := wholeWords isWord
  [.seqs [text "i", maybe '\'', text "m"], text "i am", text "i have", text "i've", text "my",
    text "me", text "mine", text "safe for", .seqs [text "ok", .opt (text "ay"), text " for"],
    text "can i eat", text "should i eat"]

/-- `_SAFETY_QUESTION`. -/
def safetyQuestion : Regex := .seq (.boundary isWord) (.oneOf
  [.seqs [text "is", spaces, .upTo (.seq (.plus (.char isWord)) spaces) 4, text "safe",
      .boundary isWord],
    text "safe to eat",
    .seqs [text "contain", maybe 's', spaces, .opt (.seq (text "any") spaces),
      .oneOf [.seq (text "nut") (maybe 's'), .seq (text "peanut") (maybe 's'), text "gluten",
        text "dairy", text "lactose", text "soy", text "sesame", text "shellfish"],
      .boundary isWord],
    .seqs [text "will ", .oneOf [text "this", text "it"], text " ",
      .oneOf [text "hurt", text "harm", text "kill"]],
    .seqs [text "am i ", .oneOf [text "going to", text "gonna"], text " ",
      .oneOf [text "react", text "be ok"]]])

/-- `SafetyReason`. -/
inductive SafetyReason
  | allergen
  | medical
  | none
  deriving DecidableEq

/-- `Safety.refuse`. -/
def SafetyReason.refuse (reason : SafetyReason) : Bool := reason ≠ .none

/-- `_verdict`. -/
def verdict (question : String) : SafetyReason :=
  let found (pattern : (Char → Bool) → Regex) : Bool := (pattern isWord).occurs question.toList
  if found safetyQuestion then if found allergen then .allergen else .medical
  else if found personal && found allergen then .allergen
  else if found personal && found medical then .medical
  else .none

/-- `safety_check`: the question, and then what was said before it. -/
def safetyCheck (question : String) (history : List String) : SafetyReason :=
  if (verdict isWord question).refuse then verdict isWord question
  else ((history.map (verdict isWord)).find? SafetyReason.refuse).getD .none

variable {isWord} {question : String} {history : List String}

theorem refuse_safetyCheck : (safetyCheck isWord question history).refuse = true ↔
    (verdict isWord question).refuse = true ∨
      ∃ earlier ∈ history, (verdict isWord earlier).refuse = true := by
  unfold safetyCheck
  split
  · next h => exact ⟨fun _ => .inl h, fun _ => h⟩
  · next h =>
    rw [or_iff_right h]
    rcases hfind : (history.map (verdict isWord)).find? SafetyReason.refuse with _ | reason
    · have hnone := List.find?_eq_none.mp hfind
      refine ⟨fun hrefuse => absurd hrefuse (by decide), ?_⟩
      rintro ⟨earlier, hmem, hrefuse⟩
      exact absurd hrefuse (hnone _ (List.mem_map_of_mem hmem))
    · refine ⟨fun _ => ?_, fun _ => List.find?_some hfind⟩
      obtain ⟨earlier, hmem, rfl⟩ := List.mem_map.mp (List.mem_of_find?_eq_some hfind)
      exact ⟨earlier, hmem, List.find?_some hfind⟩

end

end Assistant
