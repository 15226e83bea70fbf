/-
`Buffer`, as far as a cursor goes through one: UTF-8 and base64url.

A cursor is JSON text, written as UTF-8 and then as base64url, and read back the same
way.  Reading never fails.  The UTF-8 decoder is the one of the WHATWG encoding standard:
it replaces what is no character by U+FFFD, the longest piece that starts like one at a
time.  The base64url decoder drops an incomplete last byte.

What is written comes back: any bytes through base64url, and any text without a lone
surrogate through UTF-8.
-/
import HuginAgent.Js.Text

namespace HuginAgent

/-! ### base64url -/

/-- The digit for six bits. -/
def base64Unit (n : Nat) : UInt16 :=
  if n < 26 then (65 + n).toUInt16
  else if n < 52 then (71 + n).toUInt16
  else if n < 62 then (n - 4).toUInt16
  else if n = 62 then unit '-'
  else unit '_'

/-- The six bits of a digit, of either alphabet. -/
def base64Value (u : UInt16) : Option Nat :=
  if 65 ≤ u && u ≤ 90 then some (u.toNat - 65)
  else if 97 ≤ u && u ≤ 122 then some (u.toNat - 71)
  else if 48 ≤ u && u ≤ 57 then some (u.toNat + 4)
  else if u = unit '-' || u = unit '+' then some 62
  else if u = unit '_' || u = unit '/' then some 63
  else none

/-- Bytes, six bits at a time. -/
def sextets : List UInt8 → List Nat
  | [] => []
  | [a] => [a.toNat / 4, a.toNat % 4 * 16]
  | [a, b] => [a.toNat / 4, a.toNat % 4 * 16 + b.toNat / 16, b.toNat % 16 * 4]
  | a :: b :: c :: rest =>
      a.toNat / 4 :: (a.toNat % 4 * 16 + b.toNat / 16) :: (b.toNat % 16 * 4 + c.toNat / 64) ::
        c.toNat % 64 :: sextets rest

/-- The bytes that are complete. -/
def fromSextets : List Nat → List UInt8
  | [] => []
  | [_] => []
  | [p, q] => [(p * 4 + q / 16).toUInt8]
  | [p, q, r] => [(p * 4 + q / 16).toUInt8, (q % 16 * 16 + r / 4).toUInt8]
  | p :: q :: r :: s :: rest =>
      (p * 4 + q / 16).toUInt8 :: (q % 16 * 16 + r / 4).toUInt8 :: (r % 4 * 64 + s).toUInt8 ::
        fromSextets rest

/-- `buffer.toString("base64url")`. -/
def toBase64Url (bytes : List UInt8) : JsString := (sextets bytes).map base64Unit

/-- `Buffer.from(s, "base64url")`: what is no digit is skipped. -/
def fromBase64Url (s : JsString) : List UInt8 := fromSextets (s.filterMap base64Value)

theorem base64Value_unit : ∀ n < 64, base64Value (base64Unit n) = some n := by decide

theorem sextets_length (bytes : List UInt8) :
    (sextets bytes).length = (bytes.length * 4 + 2) / 3 := by
  induction bytes using sextets.induct with
  | case1 => rfl
  | case2 a => simp only [sextets, List.length_cons, List.length_nil]
  | case3 a b => simp only [sextets, List.length_cons, List.length_nil]
  | case4 a b c rest ih =>
      simp only [sextets, List.length_cons, ih]
      omega

theorem length_fromSextets (ns : List Nat) : (fromSextets ns).length = ns.length * 3 / 4 := by
  induction ns using fromSextets.induct with
  | case1 => rfl
  | case2 n => simp only [fromSextets, List.length_cons, List.length_nil]
  | case3 p q => simp only [fromSextets, List.length_cons, List.length_nil]
  | case4 p q r => simp only [fromSextets, List.length_cons, List.length_nil]
  | case5 p q r s rest ih =>
      simp only [fromSextets, List.length_cons, ih]
      omega

theorem sextets_lt (bytes : List UInt8) : ∀ n ∈ sextets bytes, n < 64 := by
  induction bytes using sextets.induct with
  | case1 => exact nofun
  | case2 a =>
      have ha := a.toNat_lt
      intro n hn
      simp only [sextets, List.mem_cons, List.not_mem_nil, or_false] at hn
      omega
  | case3 a b =>
      have ha := a.toNat_lt
      have hb := b.toNat_lt
      intro n hn
      simp only [sextets, List.mem_cons, List.not_mem_nil, or_false] at hn
      omega
  | case4 a b c rest ih =>
      have ha := a.toNat_lt
      have hb := b.toNat_lt
      have hc := c.toNat_lt
      intro n hn
      simp only [sextets, List.mem_cons] at hn
      rcases hn with hn | hn | hn | hn | hn
      · omega
      · omega
      · omega
      · omega
      · exact ih n hn

/-- A byte put together again. -/
theorem toUInt8_eq {n : Nat} {a : UInt8} (h : n = a.toNat) : n.toUInt8 = a := by
  rw [h]
  exact UInt8.ofNat_toNat

theorem fromSextets_sextets (bytes : List UInt8) : fromSextets (sextets bytes) = bytes := by
  induction bytes using sextets.induct with
  | case1 => rfl
  | case2 a =>
      have ha := a.toNat_lt
      rw [sextets, fromSextets, toUInt8_eq (a := a) (by omega)]
  | case3 a b =>
      have ha := a.toNat_lt
      have hb := b.toNat_lt
      rw [sextets, fromSextets, toUInt8_eq (a := a) (by omega), toUInt8_eq (a := b) (by omega)]
  | case4 a b c rest ih =>
      have ha := a.toNat_lt
      have hb := b.toNat_lt
      have hc := c.toNat_lt
      rw [sextets, fromSextets, toUInt8_eq (a := a) (by omega), toUInt8_eq (a := b) (by omega),
        toUInt8_eq (a := c) (by omega), ih]

/-- What is written in digits is read off them. -/
theorem filterMap_base64Unit {ns : List Nat} (h : ∀ n ∈ ns, n < 64) :
    (ns.map base64Unit).filterMap base64Value = ns := by
  induction ns with
  | nil => rfl
  | cons n ns ih =>
      rw [List.map_cons, List.filterMap_cons_some (base64Value_unit n (h n List.mem_cons_self)),
        ih fun m hm => h m (List.mem_cons_of_mem _ hm)]

/-- **Bytes go through base64url.** -/
theorem fromBase64Url_toBase64Url (bytes : List UInt8) :
    fromBase64Url (toBase64Url bytes) = bytes := by
  rw [fromBase64Url, toBase64Url, filterMap_base64Unit (sextets_lt bytes), fromSextets_sextets]

/-- `[A-Za-z0-9_-]` -/
def isBase64UrlUnit (u : UInt16) : Bool :=
  (65 ≤ u && u ≤ 90) || (97 ≤ u && u ≤ 122) || (48 ≤ u && u ≤ 57) || u = unit '_' || u = unit '-'

theorem isBase64UrlUnit_toBase64Url (bytes : List UInt8) :
    (toBase64Url bytes).all isBase64UrlUnit = true := by
  have hall : ∀ n < 64, isBase64UrlUnit (base64Unit n) = true := by decide
  rw [toBase64Url, List.all_map, List.all_eq_true]
  exact fun n hn => hall n (sextets_lt bytes n hn)

theorem toBase64Url_ne_nil {bytes : List UInt8} (h : bytes ≠ []) : toBase64Url bytes ≠ [] := by
  unfold toBase64Url
  unfold sextets
  split
  · exact absurd rfl h
  · exact List.cons_ne_nil _ _
  · exact List.cons_ne_nil _ _
  · exact List.cons_ne_nil _ _

/-! ### UTF-8, written -/

/-- The bytes of a code point. -/
def utf8Point (n : Nat) : List UInt8 :=
  if n < 0x80 then [n.toUInt8]
  else if n < 0x800 then [(0xC0 + n / 0x40).toUInt8, (0x80 + n % 0x40).toUInt8]
  else if n < 0x10000 then
    [(0xE0 + n / 0x1000).toUInt8, (0x80 + n / 0x40 % 0x40).toUInt8, (0x80 + n % 0x40).toUInt8]
  else
    [(0xF0 + n / 0x40000).toUInt8, (0x80 + n / 0x1000 % 0x40).toUInt8,
      (0x80 + n / 0x40 % 0x40).toUInt8, (0x80 + n % 0x40).toUInt8]

/-- The code point of a pair of surrogates. -/
def pairPoint (high low : UInt16) : Nat :=
  0x10000 + (high.toNat - 0xD800) * 0x400 + (low.toNat - 0xDC00)

/-- `Buffer.from(s, "utf8")`: a lone surrogate is written as U+FFFD. -/
def utf8Encode : JsString → List UInt8
  | [] => []
  | [u] => utf8Point (if isHighSurrogate u || isLowSurrogate u then 0xFFFD else u.toNat)
  | u :: v :: rest =>
      if isHighSurrogate u && isLowSurrogate v then utf8Point (pairPoint u v) ++ utf8Encode rest
      else
        utf8Point (if isHighSurrogate u || isLowSurrogate u then 0xFFFD else u.toNat) ++
          utf8Encode (v :: rest)

theorem utf8Encode_ne_nil {s : JsString} (h : s ≠ []) : utf8Encode s ≠ [] := by
  have hpoint : ∀ n, utf8Point n ≠ [] := by
    intro n
    unfold utf8Point
    split
    · exact List.cons_ne_nil _ _
    split
    · exact List.cons_ne_nil _ _
    split
    · exact List.cons_ne_nil _ _
    · exact List.cons_ne_nil _ _
  unfold utf8Encode
  split
  · exact absurd rfl h
  · exact hpoint _
  split
  · exact List.append_ne_nil_of_left_ne_nil (hpoint _) _
  · exact List.append_ne_nil_of_left_ne_nil (hpoint _) _

/-! ### UTF-8, read -/

/-- How many bytes are still to come, the range of the next one, and the bits so far. -/
structure Utf8State where
  needed : Nat
  lower : Nat
  upper : Nat
  point : Nat

def Utf8State.between : Utf8State := ⟨0, 0x80, 0xBF, 0⟩

def replacement : UInt16 := 0xFFFD

/-- The code units of a code point. -/
def pointUnits (n : Nat) : JsString :=
  if n < 0x10000 then [n.toUInt16]
  else [(0xD800 + (n - 0x10000) / 0x400).toUInt16, (0xDC00 + (n - 0x10000) % 0x400).toUInt16]

/-- A byte where a character begins. -/
def utf8Lead (b : Nat) : JsString × Utf8State :=
  if b < 0x80 then (pointUnits b, .between)
  else if 0xC2 ≤ b ∧ b ≤ 0xDF then ([], ⟨1, 0x80, 0xBF, b - 0xC0⟩)
  else if 0xE0 ≤ b ∧ b ≤ 0xEF then
    ([], ⟨2, if b = 0xE0 then 0xA0 else 0x80, if b = 0xED then 0x9F else 0xBF, b - 0xE0⟩)
  else if 0xF0 ≤ b ∧ b ≤ 0xF4 then
    ([], ⟨3, if b = 0xF0 then 0x90 else 0x80, if b = 0xF4 then 0x8F else 0xBF, b - 0xF0⟩)
  else ([replacement], .between)

/-- A byte that does not go on with the character is looked at again as the beginning of one. -/
def utf8Next (st : Utf8State) (b : Nat) : JsString × Utf8State :=
  if st.needed = 0 then utf8Lead b
  else if st.lower ≤ b ∧ b ≤ st.upper then
    if st.needed = 1 then (pointUnits (st.point * 0x40 + (b - 0x80)), .between)
    else ([], ⟨st.needed - 1, 0x80, 0xBF, st.point * 0x40 + (b - 0x80)⟩)
  else (replacement :: (utf8Lead b).1, (utf8Lead b).2)

def utf8DecodeFrom (st : Utf8State) : List UInt8 → JsString
  | [] => if st.needed = 0 then [] else [replacement]
  | b :: rest =>
      (utf8Next st b.toNat).1 ++ utf8DecodeFrom (utf8Next st b.toNat).2 rest

/-- `buffer.toString("utf8")`. -/
def utf8Decode (bytes : List UInt8) : JsString := utf8DecodeFrom .between bytes

theorem toNat_toUInt8 {n : Nat} (h : n < 256) : n.toUInt8.toNat = n := by
  rw [Nat.toUInt8_eq, UInt8.toNat_ofNat', Nat.mod_eq_of_lt h]

section Steps

variable {b : UInt8} {n lower upper point : Nat}

theorem utf8DecodeFrom_lead (hb : b.toNat = n) (rest : List UInt8) :
    utf8DecodeFrom .between (b :: rest) = (utf8Lead n).1 ++ utf8DecodeFrom (utf8Lead n).2 rest := by
  rw [utf8DecodeFrom, hb, utf8Next, if_pos (show Utf8State.between.needed = 0 from rfl)]

/-- The last byte of a character. -/
theorem utf8DecodeFrom_last (hb : b.toNat = n) (hrange : lower ≤ n ∧ n ≤ upper)
    (rest : List UInt8) :
    utf8DecodeFrom ⟨1, lower, upper, point⟩ (b :: rest) =
      pointUnits (point * 0x40 + (n - 0x80)) ++ utf8DecodeFrom .between rest := by
  rw [utf8DecodeFrom, hb, utf8Next, if_neg Nat.one_ne_zero, if_pos hrange, if_pos rfl]

/-- A byte within a character. -/
theorem utf8DecodeFrom_more {k : Nat} (hb : b.toNat = n) (hrange : lower ≤ n ∧ n ≤ upper)
    (rest : List UInt8) :
    utf8DecodeFrom ⟨k + 2, lower, upper, point⟩ (b :: rest) =
      utf8DecodeFrom ⟨k + 1, 0x80, 0xBF, point * 0x40 + (n - 0x80)⟩ rest := by
  rw [utf8DecodeFrom, hb, utf8Next, if_neg (Nat.succ_ne_zero _), if_pos hrange,
    if_neg (by simp only; omega)]
  rfl

theorem utf8Lead_two (h : 0xC2 ≤ n ∧ n ≤ 0xDF) :
    utf8Lead n = ([], ⟨1, 0x80, 0xBF, n - 0xC0⟩) := by
  rw [utf8Lead, if_neg (by omega), if_pos h]

theorem utf8Lead_three (h : 0xE0 ≤ n ∧ n ≤ 0xEF) :
    utf8Lead n = ([], ⟨2, if n = 0xE0 then 0xA0 else 0x80, if n = 0xED then 0x9F else 0xBF,
      n - 0xE0⟩) := by
  rw [utf8Lead, if_neg (by omega), if_neg (by omega), if_pos h]

theorem utf8Lead_four (h : 0xF0 ≤ n ∧ n ≤ 0xF4) :
    utf8Lead n = ([], ⟨3, if n = 0xF0 then 0x90 else 0x80, if n = 0xF4 then 0x8F else 0xBF,
      n - 0xF0⟩) := by
  rw [utf8Lead, if_neg (by omega), if_neg (by omega), if_neg (by omega), if_pos h]

/-- **A code point that is no surrogate comes back.** -/
theorem utf8Decode_point (hn : n < 0x110000) (hsur : ¬ (0xD800 ≤ n ∧ n ≤ 0xDFFF))
    (rest : List UInt8) :
    utf8DecodeFrom .between (utf8Point n ++ rest) =
      pointUnits n ++ utf8DecodeFrom .between rest := by
  unfold utf8Point
  split
  · rename_i h
    rw [List.singleton_append, utf8DecodeFrom_lead (toNat_toUInt8 (by omega)), utf8Lead, if_pos h]
  · rename_i h80
    split
    · rename_i h800
      rw [List.cons_append, List.singleton_append, utf8DecodeFrom_lead (toNat_toUInt8 (by omega)),
        utf8Lead_two (by omega), List.nil_append,
        utf8DecodeFrom_last (toNat_toUInt8 (by omega)) (by omega)]
      exact congrArg (fun m => pointUnits m ++ utf8DecodeFrom .between rest) (by omega)
    · rename_i h800
      split
      · rename_i h10000
        rw [List.cons_append, List.cons_append, List.singleton_append,
          utf8DecodeFrom_lead (toNat_toUInt8 (by omega)), utf8Lead_three (by omega),
          List.nil_append,
          utf8DecodeFrom_more (toNat_toUInt8 (by omega)) (by split <;> split <;> omega),
          utf8DecodeFrom_last (toNat_toUInt8 (by omega)) (by omega)]
        exact congrArg (fun m => pointUnits m ++ utf8DecodeFrom .between rest) (by omega)
      · rename_i h10000
        rw [List.cons_append, List.cons_append, List.cons_append, List.singleton_append,
          utf8DecodeFrom_lead (toNat_toUInt8 (by omega)), utf8Lead_four (by omega),
          List.nil_append,
          utf8DecodeFrom_more (toNat_toUInt8 (by omega)) (by split <;> split <;> omega),
          utf8DecodeFrom_more (toNat_toUInt8 (by omega)) (by omega),
          utf8DecodeFrom_last (toNat_toUInt8 (by omega)) (by omega)]
        exact congrArg (fun m => pointUnits m ++ utf8DecodeFrom .between rest) (by omega)

end Steps

theorem isHighSurrogate_iff (u : UInt16) :
    isHighSurrogate u = true ↔ 0xD800 ≤ u.toNat ∧ u.toNat ≤ 0xDBFF := by
  simp only [isHighSurrogate, Bool.and_eq_true, decide_eq_true_eq, UInt16.le_iff_toNat_le]
  exact Iff.rfl

theorem isLowSurrogate_iff (u : UInt16) :
    isLowSurrogate u = true ↔ 0xDC00 ≤ u.toNat ∧ u.toNat ≤ 0xDFFF := by
  simp only [isLowSurrogate, Bool.and_eq_true, decide_eq_true_eq, UInt16.le_iff_toNat_le]
  exact Iff.rfl

/-- A unit put together again. -/
theorem toUInt16_eq {n : Nat} {u : UInt16} (h : n = u.toNat) : n.toUInt16 = u := by
  rw [h]
  exact UInt16.ofNat_toNat

theorem utf8Encode_cons {u : UInt16} (h : isHighSurrogate u = false) (h' : isLowSurrogate u = false)
    (t : JsString) : utf8Encode (u :: t) = utf8Point u.toNat ++ utf8Encode t := by
  have hpoint : (if isHighSurrogate u || isLowSurrogate u then 0xFFFD else u.toNat) = u.toNat := by
    rw [h, h']
    rfl
  cases t with
  | nil => exact (congrArg utf8Point hpoint).trans (List.append_nil _).symm
  | cons v t =>
      rw [utf8Encode, h, Bool.false_and, if_neg Bool.false_ne_true, ← h, hpoint]

/-- The two units of a code point of a higher plane stand for it. -/
theorem utf8Encode_pair {n : Nat} (h : 0x10000 ≤ n) (h' : n < 0x110000) (t : JsString) :
    utf8Encode (pointUnits n ++ t) = utf8Point n ++ utf8Encode t := by
  have hhigh : ((0xD800 + (n - 0x10000) / 0x400).toUInt16).toNat = 0xD800 + (n - 0x10000) / 0x400 := by
    rw [Nat.toUInt16_eq, UInt16.toNat_ofNat']
    omega
  have hlow : ((0xDC00 + (n - 0x10000) % 0x400).toUInt16).toNat = 0xDC00 + (n - 0x10000) % 0x400 := by
    rw [Nat.toUInt16_eq, UInt16.toNat_ofNat']
    omega
  have hpair : (isHighSurrogate (0xD800 + (n - 0x10000) / 0x400).toUInt16 &&
      isLowSurrogate (0xDC00 + (n - 0x10000) % 0x400).toUInt16) = true := by
    rw [Bool.and_eq_true, isHighSurrogate_iff, isLowSurrogate_iff, hhigh, hlow]
    omega
  have hvalue : pairPoint (0xD800 + (n - 0x10000) / 0x400).toUInt16
      (0xDC00 + (n - 0x10000) % 0x400).toUInt16 = n := by
    unfold pairPoint
    rw [hhigh, hlow]
    omega
  rw [pointUnits, if_neg (by omega), List.cons_append, List.cons_append, List.nil_append, utf8Encode,
    if_pos hpair, hvalue]

theorem utf8Decode_unit {u : UInt16} (hhigh : isHighSurrogate u = false)
    (hlow : isLowSurrogate u = false) (rest : List UInt8) :
    utf8DecodeFrom .between
        (utf8Point (if isHighSurrogate u || isLowSurrogate u then 0xFFFD else u.toNat) ++ rest) =
      u :: utf8DecodeFrom .between rest := by
  have hlt := u.toNat_lt
  have hsur : ¬ (0xD800 ≤ u.toNat ∧ u.toNat ≤ 0xDFFF) := by
    rw [← Bool.not_eq_true, isHighSurrogate_iff] at hhigh
    rw [← Bool.not_eq_true, isLowSurrogate_iff] at hlow
    omega
  rw [hhigh, hlow, Bool.or_false, if_neg Bool.false_ne_true, utf8Decode_point (by omega) hsur,
    pointUnits, if_pos (by omega), toUInt16_eq rfl, List.singleton_append]

theorem utf8Decode_pair {u v : UInt16} (hu : isHighSurrogate u = true)
    (hv : isLowSurrogate v = true) (rest : List UInt8) :
    utf8DecodeFrom .between (utf8Point (pairPoint u v) ++ rest) =
      u :: v :: utf8DecodeFrom .between rest := by
  rw [isHighSurrogate_iff] at hu
  rw [isLowSurrogate_iff] at hv
  have hpoint : pairPoint u v = 0x10000 + (u.toNat - 0xD800) * 0x400 + (v.toNat - 0xDC00) := rfl
  rw [utf8Decode_point (by omega) (by omega), pointUnits, if_neg (by omega),
    toUInt16_eq (u := u) (by omega), toUInt16_eq (u := v) (by omega)]
  rfl

/-- **Text without a lone surrogate goes through UTF-8.** -/
theorem utf8Decode_utf8Encode (s : JsString) (h : hasLoneSurrogate s = false) :
    utf8Decode (utf8Encode s) = s := by
  unfold utf8Decode
  unfold hasLoneSurrogate at h
  induction s using utf8Encode.induct with
  | case1 => rfl
  | case2 u =>
      rw [loneFrom, Bool.or_eq_false_iff, isLone, Bool.or_eq_false_iff] at h
      have hhigh : isHighSurrogate u = false := by simpa using h.1.1
      have hlow : isLowSurrogate u = false := by simpa using h.1.2
      have hunit := utf8Decode_unit hhigh hlow []
      rwa [List.append_nil] at hunit
  | case3 u v rest hpair ih =>
      obtain ⟨hhigh, hlow⟩ := (Bool.and_eq_true ..).mp hpair
      have hnot : isHighSurrogate v = false := by
        rw [isLowSurrogate_iff] at hlow
        rw [← Bool.not_eq_true, isHighSurrogate_iff]
        omega
      rw [loneFrom, loneFrom, hnot, Bool.or_eq_false_iff, Bool.or_eq_false_iff] at h
      rw [utf8Encode, if_pos hpair, utf8Decode_pair hhigh hlow, ih h.2.2]
  | case4 u v rest hpair ih =>
      rw [loneFrom, Bool.or_eq_false_iff, isLone, Bool.or_eq_false_iff] at h
      have hlow : isLowSurrogate u = false := by simpa using h.1.2
      have hhigh : isHighSurrogate u = false := by
        have himp : isHighSurrogate u = true → isLowSurrogate v = true := by simpa using h.1.1
        by_contra hhigh
        rw [Bool.not_eq_false] at hhigh
        exact hpair ((Bool.and_eq_true ..).mpr ⟨hhigh, himp hhigh⟩)
      rw [hhigh] at h
      rw [utf8Encode, if_neg hpair, utf8Decode_unit hhigh hlow, ih h.2]

end HuginAgent
