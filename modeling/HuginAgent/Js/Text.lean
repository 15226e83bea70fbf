/-
JavaScript strings.

A string value is a finite sequence of UTF-16 code units, and nothing makes a
surrogate come in a pair: `JSON.parse` turns the escape `\ud800` into one lone
unit, so every id the wire schema admits may carry one.  Lean's `String` cannot
hold such a value, and whether a string holds one decides whether a result can be
digested at all, so the model keeps the code units.

What is read off a unit's surroundings, the lone-surrogate test, the UTF-8 length
and the escaping of `JSON.stringify`, is written as a walk that carries one
bit: was the unit before a high surrogate.  Together with the head of what
follows, that is all the look-behind and look-ahead of `LONE_SURROGATE` ever ask.
-/
import Mathlib.Data.List.Basic

namespace HuginAgent

/-- A JavaScript string: its UTF-16 code units. -/
abbrev JsString := List UInt16

/-- The code unit of a character of the basic plane. -/
def unit (c : Char) : UInt16 := c.toNat.toUInt16

/-- The code units of one Unicode scalar. -/
def unitsOf (c : Char) : JsString :=
  if c.toNat < 0x10000 then [unit c]
  else [(0xD800 + (c.toNat - 0x10000) / 0x400).toUInt16,
    (0xDC00 + (c.toNat - 0x10000) % 0x400).toUInt16]

/-- A condition on every unit of a text is decided by going through the text, and not through all
the units there are. -/
instance decidableForallUnits (s : JsString) (p : UInt16 → Prop) [DecidablePred p] :
    Decidable (∀ u ∈ s, p u) :=
  List.decidableBAll p s

/-- A string literal of the source. -/
def js (s : String) : JsString := s.toList.flatMap unitsOf

def isHighSurrogate (u : UInt16) : Bool := 0xD800 ≤ u && u ≤ 0xDBFF

def isLowSurrogate (u : UInt16) : Bool := 0xDC00 ≤ u && u ≤ 0xDFFF

/-- Is the unit at hand a lone surrogate, between what precedes and what follows it? -/
def isLone (prevHigh : Bool) (u : UInt16) (rest : JsString) : Bool :=
  (isHighSurrogate u && !rest.head?.any isLowSurrogate) || (isLowSurrogate u && !prevHigh)

def loneFrom (prevHigh : Bool) : JsString → Bool
  | [] => false
  | u :: rest => isLone prevHigh u rest || loneFrom (isHighSurrogate u) rest

/-- `LONE_SURROGATE.test(s)`. -/
def hasLoneSurrogate (s : JsString) : Bool := loneFrom false s

/-- UTF-8 bytes of one unit; the low half of a pair is counted with the high one. -/
def utf8LengthAt (prevHigh : Bool) (u : UInt16) (rest : JsString) : Nat :=
  if u < 0x80 then 1
  else if u < 0x800 then 2
  else if isHighSurrogate u && rest.head?.any isLowSurrogate then 4
  else if isLowSurrogate u && prevHigh then 0
  else 3

def utf8LengthFrom (prevHigh : Bool) : JsString → Nat
  | [] => 0
  | u :: rest => utf8LengthAt prevHigh u rest + utf8LengthFrom (isHighSurrogate u) rest

/-- `Buffer.byteLength(s, "utf8")`: a lone surrogate is written as U+FFFD. -/
def byteLength (s : JsString) : Nat := utf8LengthFrom false s

/-- `parts.join(",")`. -/
def joinComma : List JsString → JsString
  | [] => []
  | [t] => t
  | t :: ts => t ++ unit ',' :: joinComma ts

@[simp] theorem joinComma_nil : joinComma [] = [] := rfl

@[simp] theorem joinComma_singleton (t : JsString) : joinComma [t] = t := rfl

@[simp] theorem joinComma_cons_cons (t u : JsString) (ts : List JsString) :
    joinComma (t :: u :: ts) = t ++ unit ',' :: joinComma (u :: ts) := rfl

end HuginAgent
