/-
Citations, and the stream that they are taken out of.

* `marker`, `partialMarker` — a citation, and what could still become one;
* `Stripper` — takes citations out of a text that arrives in pieces.
-/
import SmartFoodOps.Lib.Regex
import SmartFoodOps.Assistant.Knowledge

namespace Assistant

/-- `[A-Za-z0-9_.:-]`. -/
def isIdChar (c : Char) : Bool :=
  c.isAlphanum || c = '_' || c = '.' || c = ':' || c = '-'

/-- `MARKER`. -/
def marker : Regex := .seqs [.str "[item:", .plus (.char isIdChar), .lit ']']

/-- `_MARKER_SPACE`: with the space that usually follows. -/
def markerSpace : Regex := .seq marker (.opt (.char isSpace))

/-- `_PARTIAL`: a fragment at the end that could still grow into a marker. -/
def partialMarker : Regex :=
  let grow (x : Char) (r : Regex) : Regex := .opt (.seq (.lit x) r)
  .seqs [.lit '[', grow 'i' (grow 't' (grow 'e' (grow 'm' (grow ':' (.star (.char isIdChar)))))),
    .ending]

def isBlank (c : Char) : Bool := c = ' ' || c = '\t'

/-- `_WHITESPACE`. -/
def blanks : Regex := .atLeast (.char isBlank) 2

structure Stripper where
  held : List Char := []
  last : Option Char := none

/-- `_spaced`: one space where a marker has left two, also across pieces. -/
def Stripper.spaced (s : Stripper) (out : List Char) : List Char × Stripper :=
  let out := blanks.replaceAll (fun _ => [' ']) out
  let out := if s.last = some ' ' ∨ s.last = none then out.dropWhile (· = ' ') else out
  (out, { s with last := out.getLast? <|> s.last })

/-- `push`: what can be sent now. -/
def Stripper.push (s : Stripper) (text : List Char) : List Char × Stripper :=
  let buffered := markerSpace.replaceAll (fun _ => []) (s.held ++ text)
  match partialMarker.search buffered with
  | none => { s with held := [] }.spaced buffered
  | some (start, _) => { s with held := start.after }.spaced start.before.reverse

/-- `flush`: what is still held. -/
def Stripper.flush (s : Stripper) : List Char × Stripper :=
  { s with held := [] }.spaced s.held

end Assistant
