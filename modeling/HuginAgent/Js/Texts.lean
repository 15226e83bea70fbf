/-
Objects of strings.

Most of what goes over the wire in one piece are such objects: requests, answers and records on
disk.  They come out of `JSON.parse` as they went into `JSON.stringify`, whatever the strings hold.
-/
import HuginAgent.Js.Cursor
import HuginAgent.Js.Strings

namespace HuginAgent

namespace JsObject

/-- The object with these properties. -/
def ofTexts (ps : List (JsString × JsString)) : JsObject := ps.map fun p => (p.1, .str p.2)

@[simp] theorem keys_ofTexts (ps : List (JsString × JsString)) :
    (ofTexts ps).keys = ps.map Prod.fst := by
  rw [keys, ofTexts, List.map_map]
  rfl

theorem wellFormed_ofTexts {ps : List (JsString × JsString)} (h : (ps.map Prod.fst).Nodup) :
    (JsValue.obj (ofTexts ps)).wellFormed = true := by
  rw [JsValue.wellFormed, JsValue.wellFormedFields_iff, keys_ofTexts]
  refine ⟨h, fun p hp => ?_⟩
  obtain ⟨q, -, rfl⟩ := List.mem_map.mp hp
  rfl

theorem onWire_ofTexts (ps : List (JsString × JsString)) : (ofTexts ps).onWire = ofTexts ps := by
  induction ps with
  | nil => rfl
  | cons p rest ih =>
      show JsValue.fieldsOnWire ((p.1, .str p.2) :: ofTexts rest) = _
      rw [JsValue.fieldsOnWire]
      exact (if_neg Bool.false_ne_true).trans (congrArg ((p.1, .str p.2) :: ·) ih)

/-- Properties that are no array indices stay in the order in which they were made. -/
theorem propertyOrder_of_names {o : JsObject} (h : ∀ key ∈ o.keys, isIndexKey key = false) :
    propertyOrder o = o := by
  have hname : ∀ p ∈ o, isIndexKey p.1 = false := fun p hp => h p.1 (List.mem_map_of_mem hp)
  have hindices : o.filter (fun p => isIndexKey p.1) = [] := by
    rw [List.filter_eq_nil_iff]
    intro p hp
    rw [hname p hp]
    exact Bool.false_ne_true
  have hnames : o.filter (fun p => !isIndexKey p.1) = o := by
    rw [List.filter_eq_self]
    intro p hp
    rw [hname p hp]
    rfl
  rw [propertyOrder, hindices, hnames]
  rfl

theorem loadedFields_ofTexts (number : Decimal → JsNumber) (ps : List (JsString × JsString)) :
    JsValue.loadedFields number (ofTexts ps) = ofTexts ps := by
  induction ps with
  | nil => rfl
  | cons p rest ih =>
      show JsValue.loadedFields number ((p.1, .str p.2) :: ofTexts rest) = _
      rw [JsValue.loadedFields, ih]
      rfl

/-- Pairwise different names, none of which is an array index. -/
structure AreNames (names : List JsString) : Prop where
  nodup : names.Nodup
  plain : ∀ key ∈ names, isIndexKey key = false

instance (names : List JsString) : Decidable (AreNames names) :=
  decidable_of_iff (names.Nodup ∧ ∀ key ∈ names, isIndexKey key = false)
    ⟨fun h => ⟨h.1, h.2⟩, fun h => ⟨h.1, h.2⟩⟩

/-- **An object of strings goes through JSON.** -/
theorem parse_ofTexts (number : Decimal → JsNumber) (ps : List (JsString × JsString))
    (h : AreNames (ps.map Prod.fst)) :
    (parse (stringifyObject (ofTexts ps))).map (JsValue.loaded number) =
      some (.obj (ofTexts ps)) := by
  obtain ⟨hkeys, hnames⟩ := h
  have hparse : parse (stringifyObject (ofTexts ps)) = some (.obj (ofTexts ps).onWire) :=
    parse_jsonText _ (wellFormed_ofTexts hkeys)
  rw [hparse, onWire_ofTexts, Option.map_some, JsValue.loaded, loadedFields_ofTexts,
    propertyOrder_of_names (by rwa [keys_ofTexts])]

end JsObject

/-- A text that JSON was printed to comes back from its bytes. -/
theorem utf8Decode_stringifyObject (o : JsObject) :
    utf8Decode (utf8Encode (stringifyObject o)) = stringifyObject o :=
  utf8Decode_utf8Encode _ (sealed_lone (sealed_jsonText (.obj o)))

/-! ### How long they are -/

/-- A unit of three bytes or more. -/
theorem not_small {u : UInt16} (h : 0x800 ≤ u.toNat) : ¬ u < 0x80 ∧ ¬ u < 0x800 := by
  rw [UInt16.lt_iff_toNat_lt, UInt16.lt_iff_toNat_lt]
  exact ⟨Nat.not_lt.mpr (Nat.le_trans (by decide) h), Nat.not_lt.mpr h⟩

theorem length_utf8Point_unit {u : UInt16} (prevHigh : Bool) (rest : JsString)
    (hpair : (isHighSurrogate u && rest.head?.any isLowSurrogate) = false)
    (hprev : (isLowSurrogate u && prevHigh) = false) :
    (utf8Point (if isHighSurrogate u || isLowSurrogate u then 0xFFFD else u.toNat)).length =
      utf8LengthAt prevHigh u rest := by
  have h80 : u < 0x80 ↔ u.toNat < 0x80 := UInt16.lt_iff_toNat_lt
  have h800 : u < 0x800 ↔ u.toNat < 0x800 := UInt16.lt_iff_toNat_lt
  rw [utf8LengthAt, hpair, hprev, if_neg Bool.false_ne_true, if_neg Bool.false_ne_true]
  by_cases hlone : (isHighSurrogate u || isLowSurrogate u) = true
  · have hge : 0x800 ≤ u.toNat := by
      rw [Bool.or_eq_true, isHighSurrogate_iff, isLowSurrogate_iff] at hlone
      rcases hlone with h | h
      · exact Nat.le_trans (by decide) h.1
      · exact Nat.le_trans (by decide) h.1
    rw [if_pos hlone, if_neg (not_small hge).1, if_neg (not_small hge).2]
    rfl
  · rw [if_neg hlone, utf8Point]
    simp only [h80, h800]
    split
    · rfl
    split
    · rfl
    rw [if_pos (show u.toNat < 0x10000 from u.toNat_lt)]
    rfl

/-- **`Buffer.byteLength(s)` is how long `Buffer.from(s)` is.** -/
theorem length_utf8Encode (s : JsString) : (utf8Encode s).length = byteLength s := by
  induction s using utf8Encode.induct with
  | case1 => rfl
  | case2 u =>
      rw [utf8Encode, length_utf8Point_unit false []
        (Bool.and_false _) (Bool.and_false _)]
      rfl
  | case3 u v rest h ih =>
      obtain ⟨hu, hv⟩ := (Bool.and_eq_true _ _).mp h
      have hvhigh : isHighSurrogate v = false := by
        cases hc : isHighSurrogate v with
        | false => rfl
        | true => exact absurd hv (by rw [not_low_of_high hc]; exact Bool.false_ne_true)
      have hpoint : (utf8Point (pairPoint u v)).length = 4 := by
        have h' := (isHighSurrogate_iff u).mp hu
        have hge : 0x10000 ≤ pairPoint u v := Nat.le_add_right_of_le (Nat.le_add_right _ _)
        rw [utf8Point, if_neg (by omega), if_neg (by omega), if_neg (by omega)]
        rfl
      have hhigh : utf8LengthAt false u (v :: rest) = 4 := by
        obtain ⟨h80, h800⟩ := not_small (Nat.le_trans (by decide) ((isHighSurrogate_iff u).mp hu).1)
        rw [utf8LengthAt, if_neg h80, if_neg h800, List.head?_cons, Option.any_some, h,
          if_pos rfl]
      have hlow : utf8LengthAt true v rest = 0 := by
        obtain ⟨h80, h800⟩ := not_small (Nat.le_trans (by decide) ((isLowSurrogate_iff v).mp hv).1)
        rw [utf8LengthAt, if_neg h80, if_neg h800, hvhigh, Bool.false_and,
          if_neg Bool.false_ne_true, hv, Bool.true_and, if_pos rfl]
      rw [utf8Encode, if_pos h, List.length_append, hpoint, ih, byteLength, byteLength,
        utf8LengthFrom, utf8LengthFrom, hhigh, hu, hlow, hvhigh]
      omega
  | case4 u v rest h ih =>
      rw [Bool.not_eq_true] at h
      have hnext : utf8LengthFrom (isHighSurrogate u) (v :: rest) = byteLength (v :: rest) := by
        cases hu : isHighSurrogate u with
        | false => rfl
        | true =>
            rw [hu, Bool.true_and] at h
            rw [byteLength, utf8LengthFrom, utf8LengthFrom, utf8LengthAt, utf8LengthAt, h]
            rfl
      rw [utf8Encode, if_neg (by rw [h]; exact Bool.false_ne_true), List.length_append, ih,
        length_utf8Point_unit false (v :: rest) h (Bool.and_false _),
        ← hnext]
      rfl
theorem isPlain_toBase64Url (bytes : List UInt8) : ∀ u ∈ toBase64Url bytes, isPlain u = true := by
  have hall : ∀ n < 64, isPlain (base64Unit n) = true := by decide
  intro u hu
  rw [toBase64Url, List.mem_map] at hu
  obtain ⟨n, hn, rfl⟩ := hu
  exact hall n (sextets_lt bytes n hn)

/-- The bytes of an object of strings without escapes. -/
theorem length_ofTexts {ps : List (JsString × JsString)} (hne : ps ≠ [])
    (hplain : ∀ p ∈ ps, (∀ u ∈ p.1, isPlain u = true) ∧ ∀ u ∈ p.2, isPlain u = true) :
    (utf8Encode (stringifyObject (JsObject.ofTexts ps))).length =
      1 + (ps.map fun p => p.1.length + p.2.length + 6).sum := by
  have hentries : (JsObject.ofTexts ps).map entryBytes =
      ps.map fun p => p.1.length + p.2.length + 6 := by
    rw [JsObject.ofTexts, List.map_map]
    refine List.map_congr_left fun p hp => ?_
    show (if JsValue.isUndefined (.str p.2) then 0 else quotedBytes p.1 + jsonBytes (.str p.2) + 2) = _
    rw [if_neg (by exact Bool.false_ne_true), jsonBytes_str, quotedBytes_of_plain (hplain p hp).1,
      quotedBytes_of_plain (hplain p hp).2]
    omega
  cases ps with
  | nil => exact absurd rfl hne
  | cons p rest =>
      rw [length_utf8Encode, ← hentries]
      exact byteLength_stringifyObject (p.1, .str p.2) (JsObject.ofTexts rest) rfl

end HuginAgent
