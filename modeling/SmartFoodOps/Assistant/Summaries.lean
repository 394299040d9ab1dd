/-
What a model says of the reviews of a restaurant, and which of it is shown.

* `testimonial`, `accolade`, `contact`, `unsupportable` — claims that nothing supports;
* `normalise`, `words`, `sentence` — how reviews, themes and quotes are compared;
* `ungrounded`, `quotedFairly` — a theme of words that no review has, and a quote that a review has
  where its sentence does not negate it;
* `review` — what is kept of a summary, or the rule that refuses it.

Which characters are word characters, which are digits and which can be printed are parameters, and
so is the lower case of a text.
-/
import SmartFoodOps.Assistant.Content
import SmartFoodOps.Pricing.Engine
import SmartFoodOps.Lib.Phrase

namespace Assistant.Summaries

open Generation Pattern Phrase

section

variable (isWord isDigit isPrintable : Char → Bool) (lower : String → String)

/-! ### Claims -/

/-- `\s+`, behind an optional word. -/
def optional (s : String) : Regex := .opt (.seq (text s) spaces)

def texts (l : List String) : Regex := .oneOf (l.map text)

/-- `_TESTIMONIAL`. -/
def testimonial : Regex :=
  let inside : Regex := .star (.char fun c => ! ['"', '”', '’', '\''].contains c)
  .oneOf
    [.seqs [.char fun c => ['"', '“', '‘', '\''].contains c, .atLeast (.seq inside spaces) 2, inside,
        .char fun c => ['"', '”', '’', '\''].contains c],
      .seqs [.boundary isWord, .opt (.oneOf [.seq (text "our") spaces, .seq (text "the") spaces]),
        .oneOf [.seq (text "customer") (maybe 's'), .seq (text "diner") (maybe 's'),
          .seq (text "guest") (maybe 's'), .seq (text "local") (maybe 's'),
          .seq (text "regular") (maybe 's'), .seq (text "fan") (maybe 's'), text "everyone",
          text "people"],
        spaces,
        .oneOf [text "say", text "says", text "said", text "tell", text "told", text "love",
          text "loves", text "rave", text "raves", text "agree", text "agrees", text "call",
          text "calls", text "keep", text "keeps", .seqs [text "can", maybe '\'', text "t"],
          text "cannot", text "describe", text "describes", text "report", text "reports"],
        .boundary isWord],
      .seqs [.boundary isWord, texts ["one", "a"], spaces,
        texts ["customer", "diner", "guest", "regular"], spaces, .plus (.char isWord)]]

/-- `_ACCOLADE`. -/
def accolade : Regex :=
  let hyphen : Regex := .char fun c => c = '-' || c = ' '
  wholeWords isWord
    [.seqs [text "award", hyphen, text "winning"], .seqs [text "prize", hyphen, text "winning"],
      .seqs [text "voted", spaces, optional "the", .plus (.char isWord)],
      .seqs [text "rated", spaces, optional "the",
        .oneOf [text "best", text "top", text "no", text "number", .lit '#', .char isDigit]],
      .seqs [text "number", .star (.char isSpace), text "one"],
      .seqs [text "no.", .star (.char isSpace), .lit '1'],
      .seqs [.lit '#', .star (.char isSpace), .lit '1'],
      .seqs [text "best", hyphen, text "selling"], text "bestselling",
      .seqs [optional "the", text "best", spaces, texts ["in", "thing", "place", "restaurant"],
        .boundary isWord],
      .seqs [texts ["we", "it", "they"], spaces, text "are", spaces, optional "the",
        .oneOf [text "best", .seqs [text "number", .star (.char isSpace), text "one"]]],
      .seqs [text "five", hyphen, text "star"], .seqs [.lit '5', hyphen, text "star"],
      text "michelin"]

/-- `_CONTACT`. -/
def contact : Regex := .oneOf
  [.seqs [.plus (.char fun c => isWord c || ['.', '+', '-'].contains c), .lit '@',
      .plus (.char fun c => isWord c || c = '-'), .lit '.', .plus (.char fun c => isWord c || c = '.')],
    .seqs [.boundary isWord, .opt (.lit '+'), .char isDigit,
      .atLeast (.seq (.star (.char fun c => isSpace c || ['(', ')', '-'].contains c))
        (.char isDigit)) 8, .boundary isWord],
    .seqs [.boundary isWord, .plus (.char fun c => isWord c || c = '-'), .lit '.',
      texts ["com", "co", "net", "org", "pk", "io", "shop", "store", "co.uk"], .boundary isWord],
    .seqs [text "http", maybe 's', text "://", .plus (.char fun c => ! isSpace c)]]

/-- `RULES`. -/
def rules : List (String × Regex) :=
  [("testimonial", testimonial isWord), ("accolade", accolade isWord isDigit),
    ("contact_detail", contact isWord isDigit)]

/-- `unsupportable`. -/
def unsupportable (text : String) : Option Claim :=
  (rules isWord isDigit).findSome? fun rule =>
    (rule.2.search text.toList).map fun found =>
      let group := found.1.after.take (found.1.after.length - found.2.after.length)
      ⟨rule.1, Pricing.repr isPrintable (String.ofList (group.take 80))⟩

/-! ### Texts -/

/-- `_normalise`. -/
def normalise (text : String) : String :=
  lower (strip (String.ofList (spaces.replaceAll (fun _ => [' ']) text.toList)))

/-- `_WORD`. -/
def word : Regex := .atLeast (.char fun c => 97 ≤ c.toNat && c.toNat ≤ 122) 4

/-- The words of a theme. -/
def words (theme : String) : List String := (word.findAll (lower theme).toList).map String.ofList

/-- `_SENTENCE_SPLIT`. -/
def sentenceSplit : Regex :=
  .seq (.char fun c => ['.', '!', '?', ';', ':'].contains c) (.star (.char isSpace))

/-- The sentence that a text leaves off in. -/
def sentence (before : List Char) : List Char := (sentenceSplit.splitAll before).getLast?.getD []

/-- `_NEGATION`. -/
def negation : Regex := wholeWords isWord
  [text "not", text "never", text "no", text "n't", text "hardly", text "rarely", text "untrue",
    text "false", text "wrong", text "deny", text "denies", text "denied"]

/-- `_COMMON`. -/
def common : List String :=
  ["about", "after", "also", "been", "being", "cannot", "could", "down", "every", "from", "have",
    "into", "just", "like", "more", "most", "much", "only", "other", "over", "quite", "really",
    "same", "some", "such", "than", "that", "their", "them", "then", "there", "these", "they",
    "this", "those", "through", "time", "times", "very", "were", "what", "when", "where", "which",
    "while", "with", "would", "your", "issue", "issues", "concerns", "complaints", "reports",
    "general", "quality", "service", "delivery", "speed", "temperature", "portion", "portions",
    "price", "prices", "value", "staff", "order", "orders", "experience", "communication",
    "packaging", "accuracy", "menu", "high", "good", "great", "poor", "mixed", "positive",
    "negative", "overall", "consistent", "inconsistent", "occasional", "frequent"]

/-- `_ungrounded`: the first content word of a theme that the reviews do not have. -/
def ungrounded (theme corpus : String) : Option String :=
  (words lower theme).find? fun w => ! common.contains w && ! decide (Says corpus w)

/-- The loop of `_quoted_fairly`; `before` is what has been passed, the last character first. -/
def quotedFrom (needle : List Char) (before : List Char) : List Char → Bool
  | [] => needle = [] && ! (negation isWord).occurs (sentence before.reverse)
  | x :: rest =>
    (needle <+: x :: rest && ! (negation isWord).occurs (sentence before.reverse)) ||
      quotedFrom needle (x :: before) rest

/-- `_quoted_fairly`. -/
def quotedFairly (needle comment : String) : Bool :=
  quotedFrom isWord needle.toList [] comment.toList

/-! ### The review -/

structure Rejected where
  rule : String
  detail : String
  deriving DecidableEq

/-- The loop over themes, and the loop over quotes: each is stripped, an empty one is passed over,
a bad one is refused, and no more than `most` are kept. -/
def keep (most : ℕ) (stripped : String → String) (check : String → Except Rejected Unit) :
    List String → List String → Except Rejected (List String)
  | [], kept => .ok kept
  | x :: rest, kept =>
    if stripped x = "" then keep most stripped check rest kept
    else
      match check (stripped x) with
      | .error rejected => .error rejected
      | .ok _ =>
        if most ≤ (kept ++ [stripped x]).length then .ok (kept ++ [stripped x])
        else keep most stripped check rest (kept ++ [stripped x])

def checkTheme (joined theme : String) : Except Rejected Unit :=
  if 60 < theme.length then .error ⟨"theme_too_long", String.ofList (theme.toList.take 80)⟩
  else if (Regex.char isDigit).occurs theme.toList then .error ⟨"theme_contains_a_number", theme⟩
  else
    match unsupportable isWord isDigit isPrintable theme with
    | some claim => .error ⟨"theme_" ++ claim.rule, theme⟩
    | none =>
      match ungrounded lower theme joined with
      | some w => .error ⟨"theme_not_in_the_corpus",
          theme ++ " (" ++ Pricing.repr isPrintable w ++ ")"⟩
      | none => .ok ()

/-- `quote.strip().strip(…)`. -/
def unquoted (quote : String) : String :=
  let marks (c : Char) : Bool := ['"', '“', '”'].contains c
  String.ofList (((strip quote).toList.dropWhile marks).reverse.dropWhile marks).reverse

def checkQuote (corpus : List String) (quote : String) : Except Rejected Unit :=
  let needle := normalise lower quote
  if needle.length < 12 then .error ⟨"quote_too_short", String.ofList (quote.toList.take 120)⟩
  else if corpus.any (quotedFairly isWord needle) then .ok ()
  else .error ⟨"quote_not_in_the_corpus", String.ofList (quote.toList.take 120)⟩

/-- `MAX_THEMES`. -/
def maxThemes : ℕ := 5

/-- `MAX_QUOTES`. -/
def maxQuotes : ℕ := 3

/-- The reviews that say something, as they are compared. -/
def corpus (comments : List String) : List String :=
  (comments.filter fun comment => comment ≠ "").map (normalise lower)

def review (themes quotes comments : List String) : Except Rejected Summary := do
  let joined := " ".intercalate (corpus lower comments)
  let keptThemes ← keep maxThemes strip (checkTheme isWord isDigit isPrintable lower joined) themes []
  let keptQuotes ← keep maxQuotes unquoted (checkQuote isWord lower (corpus lower comments)) quotes []
  if keptThemes = [] then .error ⟨"no_themes", ""⟩ else .ok ⟨keptThemes, keptQuotes⟩

end

end Assistant.Summaries
