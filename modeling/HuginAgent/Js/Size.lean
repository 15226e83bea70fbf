/-
How many bytes a JSON text takes.

The UTF-8 length of a string looks at pairs of units, so it is no sum over its parts: a
high surrogate at the end of one part and a low one at the start of the next are counted
together.  JSON text is cut at quotation marks, colons, commas and brackets, all of one
byte and no surrogate, and there it is a sum.  `entryBytes` is the share of a property,
with its colon and one comma, and the text of an object is one byte longer than its
properties together.
-/
import HuginAgent.Js.RoundTrip

namespace HuginAgent

variable {s t : JsString} {u : UInt16}

/-- One unit, one byte. -/
def isAscii (u : UInt16) : Bool := u < 0x80

theorem isAscii_iff : isAscii u = true ↔ u.toNat < 128 := by
  rw [isAscii, decide_eq_true_eq, UInt16.lt_iff_toNat_lt]
  exact Iff.rfl

theorem not_high_of_ascii (h : isAscii u = true) : isHighSurrogate u = false := by
  simp only [isAscii, isHighSurrogate, decide_eq_true_eq, UInt16.lt_iff_toNat_lt,
    UInt16.le_iff_toNat_le, Bool.and_eq_false_iff, decide_eq_false_iff_not] at h ⊢
  have h128 : (0x80 : UInt16).toNat = 128 := rfl
  have hd800 : (0xD800 : UInt16).toNat = 55296 := rfl
  omega

theorem not_low_of_ascii (h : isAscii u = true) : isLowSurrogate u = false := by
  simp only [isAscii, isLowSurrogate, decide_eq_true_eq, UInt16.lt_iff_toNat_lt,
    UInt16.le_iff_toNat_le, Bool.and_eq_false_iff, decide_eq_false_iff_not] at h ⊢
  have h128 : (0x80 : UInt16).toNat = 128 := rfl
  have hdc00 : (0xDC00 : UInt16).toNat = 56320 := rfl
  omega

@[simp] theorem byteLength_nil : byteLength [] = 0 := rfl

/-- A unit of one byte ends what is before it. -/
theorem utf8LengthFrom_append (h : isAscii u = true) (s t : JsString) (prevHigh : Bool) :
    utf8LengthFrom prevHigh (s ++ u :: t) =
      utf8LengthFrom prevHigh s + 1 + byteLength t := by
  induction s generalizing prevHigh with
  | nil =>
      have hlt : u < 0x80 := of_decide_eq_true h
      simp only [List.nil_append, utf8LengthFrom, utf8LengthAt, if_pos hlt, not_high_of_ascii h,
        byteLength]
  | cons v rest ih =>
      have hat : utf8LengthAt prevHigh v (rest ++ u :: t) = utf8LengthAt prevHigh v rest := by
        cases rest with
        | nil => simp [utf8LengthAt, not_low_of_ascii h]
        | cons x rest => rfl
      simp only [List.cons_append, utf8LengthFrom, hat, ih]
      omega

theorem byteLength_append (h : isAscii u = true) (s t : JsString) :
    byteLength (s ++ u :: t) = byteLength s + 1 + byteLength t := utf8LengthFrom_append h s t false

theorem byteLength_cons (h : isAscii u = true) (t : JsString) :
    byteLength (u :: t) = 1 + byteLength t := by
  simpa using byteLength_append h [] t

theorem byteLength_snoc (h : isAscii u = true) (s : JsString) :
    byteLength (s ++ [u]) = byteLength s + 1 := by
  simpa using byteLength_append h s []

/-- A text of one-byte units. -/
theorem byteLength_of_ascii (h : ∀ u ∈ s, isAscii u = true) : byteLength s = s.length := by
  induction s with
  | nil => rfl
  | cons u rest ih =>
      rw [byteLength_cons (h u List.mem_cons_self), ih fun v hv => h v (List.mem_cons_of_mem _ hv),
        List.length_cons]
      omega

/-! ### Objects and arrays -/

theorem byteLength_joinComma (ts : List JsString) (h : ts ≠ []) :
    byteLength (joinComma ts) + 1 = (ts.map fun t => byteLength t + 1).sum := by
  induction ts with
  | nil => exact absurd rfl h
  | cons t rest ih =>
      cases rest with
      | nil => simp
      | cons t' rest =>
          have ih := ih (List.cons_ne_nil _ _)
          rw [joinComma_cons_cons, byteLength_append (by decide), List.map_cons, List.sum_cons, ← ih]
          omega

/-- The bytes of a text between its brackets. -/
theorem byteLength_enclosed {open_ close : UInt16} (hopen : isAscii open_ = true)
    (hclose : isAscii close = true) (ts : List JsString) :
    byteLength (open_ :: (joinComma ts ++ [close])) =
      if ts = [] then 2 else 1 + (ts.map fun t => byteLength t + 1).sum := by
  rw [byteLength_cons hopen, byteLength_snoc hclose]
  split
  · rename_i h
    rw [h]
    rfl
  · rename_i h
    rw [← byteLength_joinComma ts h]

/-- `Buffer.byteLength(JSON.stringify(v))`. -/
def jsonBytes (v : JsValue) : Nat := byteLength (jsonText v)

/-- The bytes of a string with its quotation marks and escapes. -/
def quotedBytes (s : JsString) : Nat := byteLength (quote s)

/-- The bytes of a property, with its colon and a comma. -/
def entryBytes (p : JsString × JsValue) : Nat :=
  if p.2.isUndefined then 0 else quotedBytes p.1 + jsonBytes p.2 + 2

theorem sum_fieldTexts (o : JsObject) :
    ((fieldTexts o).map fun t => byteLength t + 1).sum = (o.map entryBytes).sum := by
  induction o with
  | nil => rfl
  | cons p rest ih =>
      rw [fieldTexts]
      by_cases hp : p.2.isUndefined = true
      · rw [if_pos hp, ih, List.map_cons, List.sum_cons, entryBytes, if_pos hp, Nat.zero_add]
      · rw [if_neg hp, List.map_cons, List.sum_cons, ih, List.map_cons, List.sum_cons, entryBytes,
          if_neg hp, byteLength_append (by decide), quotedBytes, jsonBytes]
        omega

/-- **The bytes of an object with a property.** -/
theorem byteLength_stringifyObject (p : JsString × JsValue) (o : JsObject)
    (h : p.2.isUndefined = false) :
    byteLength (stringifyObject (p :: o)) = 1 + ((p :: o).map entryBytes).sum := by
  rw [← sum_fieldTexts, stringifyObject, jsonText, byteLength_enclosed (by decide) (by decide),
    if_neg]
  rw [fieldTexts, h]
  exact List.cons_ne_nil _ _

theorem jsonBytes_arr (items : List JsValue) :
    jsonBytes (.arr items) =
      if items = [] then 2 else 1 + (items.map fun v => jsonBytes v + 1).sum := by
  have htexts : itemTexts items = items.map jsonText := by
    induction items with
    | nil => rfl
    | cons v rest ih => rw [itemTexts, ih, List.map_cons]
  rw [jsonBytes, jsonText, byteLength_enclosed (by decide) (by decide), htexts, List.map_map]
  cases items <;> rfl

@[simp] theorem jsonBytes_str (s : JsString) : jsonBytes (.str s) = quotedBytes s := rfl

/-! ### Strings -/

/-- A unit that is written as it is. -/
def isPlain (u : UInt16) : Bool := isAscii u && 32 ≤ u && u ≠ unit '"' && u ≠ unit '\\'

theorem quoteFrom_of_plain (h : ∀ u ∈ s, isPlain u = true) (prevHigh : Bool) :
    quoteFrom prevHigh s = s := by
  induction s generalizing prevHigh with
  | nil => rfl
  | cons u rest ih =>
      have hu := h u List.mem_cons_self
      simp only [isPlain, Bool.and_eq_true, decide_eq_true_eq, ne_eq] at hu
      obtain ⟨⟨⟨hascii, hge⟩, hquote⟩, hslash⟩ := hu
      have hlone : isLone prevHigh u rest = false := by
        simp [isLone, not_high_of_ascii hascii, not_low_of_ascii hascii]
      have hctl : ∀ c : UInt16, c < 32 → u ≠ c := by
        rintro c hc rfl
        exact absurd hge (UInt16.not_le.mpr hc)
      have hunit : quoteUnit prevHigh u rest = [u] := by
        simp only [quoteUnit, if_neg hquote, if_neg hslash, if_neg (hctl 8 (by decide)),
          if_neg (hctl 9 (by decide)), if_neg (hctl 10 (by decide)), if_neg (hctl 12 (by decide)),
          if_neg (hctl 13 (by decide)), hlone, UInt16.not_lt.mpr hge, decide_false, Bool.or_false,
          Bool.false_eq_true, if_false]
      rw [quoteFrom, hunit, ih fun v hv => h v (List.mem_cons_of_mem _ hv)]
      rfl

/-- A text without escapes takes its length and two quotation marks. -/
theorem quotedBytes_of_plain (h : ∀ u ∈ s, isPlain u = true) : quotedBytes s = s.length + 2 := by
  have hascii : ∀ u ∈ s, isAscii u = true := by
    intro u hu
    have hplain := h u hu
    simp only [isPlain, Bool.and_eq_true] at hplain
    exact hplain.1.1.1
  rw [quotedBytes, quote, quoteFrom_of_plain h, byteLength_cons (by decide),
    byteLength_snoc (by decide), byteLength_of_ascii hascii]
  omega

end HuginAgent
