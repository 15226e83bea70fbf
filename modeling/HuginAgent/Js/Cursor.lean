/-
Cursors: an object as JSON text, as UTF-8, as base64url.

JSON text never holds a lone surrogate, whatever the strings in it hold: the printer
escapes it.  So the bytes of a cursor are the bytes of its text, and a cursor reads back
as the object it was made from.
-/
import HuginAgent.Js.Buffer
import HuginAgent.Js.OneLine
import HuginAgent.Js.Size

namespace HuginAgent

/-! ### JSON text has no lone surrogate -/

theorem isLone_of_ascii {u : UInt16} (h : isAscii u = true) (p : Bool) (rest : JsString) :
    isLone p u rest = false := by
  rw [isLone, not_high_of_ascii h, not_low_of_ascii h, Bool.false_and, Bool.false_and,
    Bool.or_false]

/-- The text neither needs what is before it nor leaves a surrogate open. -/
def Sealed (t : JsString) : Prop := ∀ p rest, loneFrom p (t ++ rest) = loneFrom false rest

theorem sealed_append {s t : JsString} (hs : Sealed s) (ht : Sealed t) : Sealed (s ++ t) := by
  intro p rest
  rw [List.append_assoc, hs, ht]

theorem sealed_singleton {u : UInt16} (h : isAscii u = true) : Sealed [u] := by
  intro p rest
  rw [List.singleton_append, loneFrom, isLone_of_ascii h, not_high_of_ascii h, Bool.false_or]

theorem sealed_of_ascii {t : JsString} (hne : t ≠ []) (h : ∀ u ∈ t, isAscii u = true) :
    Sealed t := by
  induction t with
  | nil => exact absurd rfl hne
  | cons u t ih =>
      have hu := sealed_singleton (h u List.mem_cons_self)
      by_cases ht : t = []
      · rw [ht]
        exact hu
      · exact sealed_append hu (ih ht fun v hv => h v (List.mem_cons_of_mem _ hv))

theorem sealed_lone {t : JsString} (h : Sealed t) : hasLoneSurrogate t = false := by
  have hseal := h false []
  rwa [List.append_nil] at hseal

theorem isAscii_of_isNumberUnit {u : UInt16} (h : isNumberUnit u = true) : isAscii u = true := by
  have h128 : (0x80 : UInt16).toNat = 128 := rfl
  simp only [isNumberUnit, isDigit, Bool.or_eq_true, Bool.and_eq_true, decide_eq_true_eq] at h
  rw [isAscii, decide_eq_true_eq, UInt16.lt_iff_toNat_lt]
  rcases h with (((h | rfl) | rfl) | rfl) | rfl
  · have h57 : (57 : UInt16).toNat = 57 := rfl
    rw [UInt16.le_iff_toNat_le, UInt16.le_iff_toNat_le] at h
    omega
  all_goals decide

theorem Decimal.text_ne_nil (d : Decimal) : d.text ≠ [] := by
  obtain ⟨u, t, htext, -⟩ := d.text_head
  rw [htext]
  exact List.cons_ne_nil _ _

theorem sealed_number (n : JsNumber) (h : n.isFinite = true) : Sealed n.text := by
  cases n with
  | finite d =>
      exact sealed_of_ascii d.text_ne_nil fun u hu => isAscii_of_isNumberUnit (d.text_units u hu)
  | nan => exact absurd h Bool.false_ne_true
  | infinity neg => exact absurd h Bool.false_ne_true

theorem hexDigit_ascii {d : Nat} (h : d < 16) : isAscii (hexDigit d) = true := by
  have hall : ∀ d < 16, isAscii (hexDigit d) = true := by decide
  exact hall d h

theorem unicodeEscape_ascii (u : UInt16) : ∀ v ∈ unicodeEscape u, isAscii v = true := by
  have hlt := u.toNat_lt
  rw [unicodeEscape, hex4]
  refine List.forall_mem_cons.mpr ⟨by decide, List.forall_mem_cons.mpr ⟨by decide, ?_⟩⟩
  intro v hv
  simp only [List.mem_cons, List.not_mem_nil, or_false] at hv
  rcases hv with rfl | rfl | rfl | rfl
  · exact hexDigit_ascii (by omega)
  · exact hexDigit_ascii (by omega)
  · exact hexDigit_ascii (by omega)
  · exact hexDigit_ascii (by omega)

theorem sealed_unicodeEscape (u : UInt16) : Sealed (unicodeEscape u) :=
  sealed_of_ascii (List.cons_ne_nil _ _) (unicodeEscape_ascii u)

/-- One unit is written as an escape, or as it is when it is not alone. -/
theorem quoteUnit_cases (p : Bool) (u : UInt16) (rest : JsString) :
    (Sealed (quoteUnit p u rest) ∧ (isAscii u = true ∨ isLone p u rest = true)) ∨
      (quoteUnit p u rest = [u] ∧ isLone p u rest = false) := by
  have hescape : ∀ c : Char, isAscii (unit c) = true → Sealed (escape c) := by
    intro c hc
    exact sealed_append (s := [unit '\\']) (t := [unit c]) (sealed_singleton (by decide))
      (sealed_singleton hc)
  unfold quoteUnit
  split
  · rename_i hu
    exact Or.inl ⟨hescape _ (by decide), Or.inl (by rw [hu]; decide)⟩
  split
  · rename_i hu
    exact Or.inl ⟨hescape _ (by decide), Or.inl (by rw [hu]; decide)⟩
  split
  · rename_i hu
    exact Or.inl ⟨hescape _ (by decide), Or.inl (by rw [hu]; decide)⟩
  split
  · rename_i hu
    exact Or.inl ⟨hescape _ (by decide), Or.inl (by rw [hu]; decide)⟩
  split
  · rename_i hu
    exact Or.inl ⟨hescape _ (by decide), Or.inl (by rw [hu]; decide)⟩
  split
  · rename_i hu
    exact Or.inl ⟨hescape _ (by decide), Or.inl (by rw [hu]; decide)⟩
  split
  · rename_i hu
    exact Or.inl ⟨hescape _ (by decide), Or.inl (by rw [hu]; decide)⟩
  split
  · rename_i hu
    refine Or.inl ⟨sealed_unicodeEscape u, ?_⟩
    rw [Bool.or_eq_true, decide_eq_true_iff] at hu
    refine hu.imp_left ?_
    intro hlt
    rw [isAscii, decide_eq_true_eq]
    exact UInt16.lt_trans hlt (by decide)
  · rename_i hu
    rw [Bool.not_eq_true, Bool.or_eq_false_iff] at hu
    exact Or.inr ⟨rfl, hu.2⟩

theorem not_low_of_high {u : UInt16} (h : isHighSurrogate u = true) :
    isLowSurrogate u = false := by
  rw [isHighSurrogate_iff] at h
  rw [← Bool.not_eq_true, isLowSurrogate_iff]
  omega

/-- A low surrogate after a high one is written as it is. -/
theorem quoteFrom_low {v : UInt16} (h : isLowSurrogate v = true) (s : JsString) :
    quoteFrom true (v :: s) = v :: quoteFrom (isHighSurrogate v) s := by
  have hhigh : isHighSurrogate v = false := by
    by_contra hc
    rw [not_low_of_high (Bool.not_eq_false _ ▸ hc)] at h
    exact Bool.false_ne_true h
  rw [quoteFrom]
  rcases quoteUnit_cases true v s with ⟨-, hascii | hlone⟩ | ⟨hself, -⟩
  · rw [not_low_of_ascii hascii] at h
    exact absurd h Bool.false_ne_true
  · rw [isLone, hhigh, Bool.not_true, Bool.and_false, Bool.false_and] at hlone
    exact absurd hlone Bool.false_ne_true
  · rw [hself, List.singleton_append]

/-- A unit that is not alone in the string is not alone in the text. -/
theorem isLone_quoteFrom {u : UInt16} {p q : Bool} {s : JsString} (hlone : isLone p u s = false)
    (hpq : q = p ∨ isLowSurrogate u = false) (rest : JsString) :
    isLone q u (quoteFrom (isHighSurrogate u) s ++ rest) = false := by
  rw [isLone, Bool.or_eq_false_iff] at hlone
  rw [isLone, Bool.or_eq_false_iff]
  refine ⟨?_, ?_⟩
  · cases hhigh : isHighSurrogate u with
    | false => rfl
    | true =>
        rw [hhigh, Bool.true_and, Bool.not_eq_false'] at hlone
        cases s with
        | nil => exact absurd hlone.1 Bool.false_ne_true
        | cons v s =>
            have hv : isLowSurrogate v = true := hlone.1
            rw [quoteFrom_low hv, Bool.true_and, Bool.not_eq_false']
            exact hv
  · rcases hpq with rfl | hlow
    · exact hlone.2
    · rw [hlow, Bool.false_and]

/-- The printed text at a point of a string: `p` says what was before in the string, `q` what was
printed last.  They differ after a high surrogate that was escaped, where no low one follows. -/
theorem loneFrom_quoteFrom (s : JsString) (p q : Bool)
    (hpq : q = p ∨ s.head?.any isLowSurrogate = false) (rest : JsString) :
    loneFrom q (quoteFrom p s ++ unit '"' :: rest) = loneFrom false rest := by
  induction s generalizing p q with
  | nil => exact sealed_singleton (u := unit '"') (by decide) q rest
  | cons u s ih =>
      rw [quoteFrom, List.append_assoc]
      rcases quoteUnit_cases p u s with ⟨hsealed, hu⟩ | ⟨hself, hlone⟩
      · rw [hsealed]
        refine ih _ false ?_
        rcases hu with hascii | hlone
        · exact Or.inl (not_high_of_ascii hascii).symm
        · cases hhigh : isHighSurrogate u with
          | false => exact Or.inl rfl
          | true =>
              rw [isLone, hhigh, not_low_of_high hhigh, Bool.false_and, Bool.or_false,
                Bool.true_and, Bool.not_eq_true'] at hlone
              exact Or.inr hlone
      · rw [hself, List.singleton_append, loneFrom, ih _ _ (Or.inl rfl),
          isLone_quoteFrom hlone hpq, Bool.false_or]

theorem sealed_quote (s : JsString) : Sealed (quote s) := by
  intro p rest
  have hopen := sealed_singleton (u := unit '"') (by decide) p (quoteFrom false s ++ [unit '"'] ++ rest)
  rw [quote, List.cons_append, ← List.singleton_append, hopen, List.append_assoc,
    List.singleton_append, loneFrom_quoteFrom s false false (Or.inl rfl)]

theorem sealed_joinComma {ts : List JsString} (hne : ts ≠ []) (h : ∀ t ∈ ts, Sealed t) :
    Sealed (joinComma ts) := by
  induction ts with
  | nil => exact absurd rfl hne
  | cons t rest ih =>
      have ht := h t List.mem_cons_self
      cases rest with
      | nil => exact ht
      | cons t' rest =>
          have hrest := ih (List.cons_ne_nil _ _) fun s hs => h s (List.mem_cons_of_mem _ hs)
          rw [joinComma_cons_cons]
          exact sealed_append ht (sealed_append (s := [unit ',']) (sealed_singleton (by decide)) hrest)

theorem sealed_enclosed {open_ close : UInt16} (hopen : isAscii open_ = true)
    (hclose : isAscii close = true) {ts : List JsString} (h : ∀ t ∈ ts, Sealed t) :
    Sealed (open_ :: (joinComma ts ++ [close])) := by
  refine sealed_append (s := [open_]) (sealed_singleton hopen) ?_
  by_cases hne : ts = []
  · rw [hne]
    exact sealed_singleton hclose
  · exact sealed_append (sealed_joinComma hne h) (sealed_singleton hclose)

mutual

theorem sealed_jsonText : ∀ (v : JsValue), Sealed (jsonText v)
  | .num n => by
      rw [jsonText]
      split
      · rename_i h
        exact sealed_number n h
      · exact sealed_of_ascii (by decide) (by decide)
  | .str s => sealed_quote s
  | .arr items => by
      rw [jsonText]
      exact sealed_enclosed (by decide) (by decide) (sealed_itemTexts items)
  | .obj fields => by
      rw [jsonText]
      exact sealed_enclosed (by decide) (by decide) (sealed_fieldTexts fields)
  | .undefined => sealed_of_ascii (by decide) (by decide)
  | .null => sealed_of_ascii (by decide) (by decide)
  | .bool true => sealed_of_ascii (by decide) (by decide)
  | .bool false => sealed_of_ascii (by decide) (by decide)

theorem sealed_itemTexts : ∀ (items : List JsValue), ∀ t ∈ itemTexts items, Sealed t
  | [] => fun _ ht => absurd ht List.not_mem_nil
  | v :: rest => by
      rw [itemTexts]
      exact List.forall_mem_cons.mpr ⟨sealed_jsonText v, sealed_itemTexts rest⟩

theorem sealed_fieldTexts : ∀ (fields : JsObject), ∀ t ∈ fieldTexts fields, Sealed t
  | [] => fun _ ht => absurd ht List.not_mem_nil
  | (key, v) :: rest => by
      rw [fieldTexts]
      split
      · exact sealed_fieldTexts rest
      · refine List.forall_mem_cons.mpr ⟨?_, sealed_fieldTexts rest⟩
        exact sealed_append (sealed_quote key)
          (sealed_append (s := [unit ':']) (sealed_singleton (by decide)) (sealed_jsonText v))

end

/-! ### Cursors -/

/-- `Buffer.from(JSON.stringify(o), "utf8").toString("base64url")`. -/
def writeCursor (o : JsObject) : JsString := toBase64Url (utf8Encode (stringifyObject o))

/-- `JSON.parse(Buffer.from(s, "base64url").toString("utf8"))`. -/
def readCursor (s : JsString) : Option JsValue := parse (utf8Decode (fromBase64Url s))

/-- **A cursor reads back as the object it was made from.** -/
theorem readCursor_writeCursor (o : JsObject) (h : (JsValue.obj o).wellFormed = true) :
    readCursor (writeCursor o) = some (.obj o.onWire) := by
  rw [readCursor, writeCursor, fromBase64Url_toBase64Url, stringifyObject,
    utf8Decode_utf8Encode _ (sealed_lone (sealed_jsonText (.obj o))), parse_jsonText _ h]
  rfl

/-- `/^[A-Za-z0-9_-]+$/.test(s)`. -/
def isCursorText (s : JsString) : Bool := s ≠ [] && s.all isBase64UrlUnit

theorem isCursorText_writeCursor (o : JsObject) : isCursorText (writeCursor o) = true := by
  rw [isCursorText, Bool.and_eq_true, decide_eq_true_eq]
  refine ⟨?_, isBase64UrlUnit_toBase64Url _⟩
  exact toBase64Url_ne_nil (utf8Encode_ne_nil (List.cons_ne_nil _ _))

end HuginAgent
