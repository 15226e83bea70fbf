/-
Parsing gives back what was printed.

`parse_stringify` is the statement the store relies on: the text of an object,
parsed, is that object as a receiver sees it.  The induction is on the value, with
the elements of an array and the members of an object alongside.  Each claim asks
for a fuel of at least the length of the text it parses, which the shorter texts of
the parts then have with room to spare.
-/
import HuginAgent.Js.Json

namespace HuginAgent

/-! ### Strings -/

theorem hexVal_hexDigit {d : Nat} (h : d < 16) : hexVal (hexDigit d) = some d := by
  have : ∀ d < 16, hexVal (hexDigit d) = some d := by decide
  exact this d h

theorem parseHex4_hex4 (u : UInt16) :
    parseHex4 (hexDigit (u.toNat / 4096)) (hexDigit (u.toNat / 256 % 16))
      (hexDigit (u.toNat / 16 % 16)) (hexDigit (u.toNat % 16)) = some u := by
  have hlt : u.toNat < 65536 := u.toNat_lt
  have h1 : hexVal (hexDigit (u.toNat / 4096)) = some (u.toNat / 4096) := hexVal_hexDigit (by omega)
  have h2 : hexVal (hexDigit (u.toNat / 256 % 16)) = some (u.toNat / 256 % 16) :=
    hexVal_hexDigit (by omega)
  have h3 : hexVal (hexDigit (u.toNat / 16 % 16)) = some (u.toNat / 16 % 16) :=
    hexVal_hexDigit (by omega)
  have h4 : hexVal (hexDigit (u.toNat % 16)) = some (u.toNat % 16) := hexVal_hexDigit (by omega)
  have hsum : 4096 * (u.toNat / 4096) + 256 * (u.toNat / 256 % 16) + 16 * (u.toNat / 16 % 16)
      + u.toNat % 16 = u.toNat := by omega
  simp only [parseHex4, h1, h2, h3, h4]
  show some (Nat.toUInt16 _) = some u
  rw [hsum]
  simp

theorem parseString_close (r : JsString) : parseString (unit '"' :: r) = some ([], r) := by
  rw [parseString.eq_def]
  simp only [if_pos]

theorem parseString_plain {u : UInt16} (h1 : u ≠ unit '"') (h2 : u ≠ unit '\\') (h3 : ¬u < 32)
    (r : JsString) : parseString (u :: r) = (parseString r).map fun q => (u :: q.1, q.2) := by
  rw [parseString.eq_def]
  simp only [if_neg h1, if_neg h2, if_neg h3]
  cases parseString r <;> rfl

theorem parseString_escape {c : Char} {u : UInt16} (hu : unit c ≠ unit 'u')
    (h : unescape (unit c) = some u) (r : JsString) :
    parseString (escape c ++ r) = (parseString r).map fun q => (u :: q.1, q.2) := by
  have hb : unit '\\' ≠ unit '"' := by decide
  simp only [escape, List.cons_append, List.nil_append]
  rw [parseString.eq_def]
  simp only [if_neg hb, if_pos, if_neg hu, h]
  cases parseString r <;> rfl

theorem parseString_unicodeEscape (u : UInt16) (r : JsString) :
    parseString (unicodeEscape u ++ r) = (parseString r).map fun q => (u :: q.1, q.2) := by
  have hb : unit '\\' ≠ unit '"' := by decide
  simp only [unicodeEscape, hex4, List.cons_append, List.nil_append]
  rw [parseString.eq_def]
  simp only [if_neg hb, if_pos, parseHex4_hex4]
  cases parseString r <;> rfl

/-- One printed unit is read as that unit. -/
theorem parseString_quoteUnit (prevHigh : Bool) (u : UInt16) (rest r : JsString) :
    parseString (quoteUnit prevHigh u rest ++ r)
      = (parseString r).map fun q => (u :: q.1, q.2) := by
  unfold quoteUnit
  split
  · rename_i h
    exact h ▸ parseString_escape (by decide) (by decide) r
  split
  · rename_i h
    exact h ▸ parseString_escape (by decide) (by decide) r
  split
  · rename_i h
    exact h ▸ parseString_escape (by decide) (by decide) r
  split
  · rename_i h
    exact h ▸ parseString_escape (by decide) (by decide) r
  split
  · rename_i h
    exact h ▸ parseString_escape (by decide) (by decide) r
  split
  · rename_i h
    exact h ▸ parseString_escape (by decide) (by decide) r
  split
  · rename_i h
    exact h ▸ parseString_escape (by decide) (by decide) r
  rename_i hquote hslash _ _ _ _ _
  split
  · exact parseString_unicodeEscape u r
  · rename_i hctrl
    have hge : ¬u < 32 := by
      intro hc
      simp [hc] at hctrl
    exact parseString_plain hquote hslash hge r

theorem parseString_quoteFrom (r : JsString) : ∀ (s : JsString) (prevHigh : Bool),
    parseString (quoteFrom prevHigh s ++ unit '"' :: r) = some (s, r) := by
  intro s
  induction s with
  | nil => intro prevHigh; exact parseString_close r
  | cons u rest ih =>
      intro prevHigh
      simp only [quoteFrom, List.append_assoc]
      rw [parseString_quoteUnit, ih]
      rfl

/-! ### Tokens -/

theorem afterPrefix_append (p r : JsString) : afterPrefix p (p ++ r) = some r := by
  induction p with
  | nil => rfl
  | cons c cs ih => simpa [afterPrefix] using ih

theorem endsNumber_cons {u : UInt16} {r : JsString} (hd : isDigit u = false)
    (hp : u ≠ unit '.') (he : u ≠ unit 'e') (hE : u ≠ unit 'E') : EndsNumber (u :: r) :=
  ⟨stopsDigits_cons hd, by simpa using hp, by simpa using ⟨he, hE⟩⟩

theorem skipSpace_cons {u : UInt16} {r : JsString} (h : isSpace u = false) :
    skipSpace (u :: r) = u :: r := by
  simp [skipSpace, h]

/-- A digit or a minus sign: what a printed number starts with. -/
def StartsNumber (u : UInt16) : Prop := u = unit '-' ∨ isDigit u = true

theorem Decimal.body_head (d : Decimal) : ∃ u t, d.body = u :: t ∧ isDigit u = true := by
  have hds := digitUnits_isDigit d.digits
  obtain ⟨u, t, hcons⟩ := List.exists_cons_of_ne_nil (digitUnits_ne_nil d.digits)
  have hu : isDigit u = true := hds u (by rw [hcons]; exact List.mem_cons_self)
  have hzero : isDigit (unit '0') = true := by decide
  unfold Decimal.body
  simp only [hcons]
  split
  · exact ⟨u, _, rfl, hu⟩
  split
  · rename_i hn
    obtain ⟨k, hk⟩ : ∃ k, (((u :: t).length : Int) + d.exponent).toNat = k + 1 :=
      ⟨(((u :: t).length : Int) + d.exponent).toNat - 1, by omega⟩
    rw [hk]
    exact ⟨u, _, rfl, hu⟩
  split
  · exact ⟨_, _, rfl, hzero⟩
  · exact ⟨u, _, rfl, hu⟩

theorem Decimal.text_head (d : Decimal) : ∃ u t, d.text = u :: t ∧ StartsNumber u := by
  obtain ⟨u, t, hcons, hu⟩ := d.body_head
  unfold Decimal.text
  split
  · exact ⟨_, _, rfl, Or.inr (by decide)⟩
  split
  · exact ⟨_, _, rfl, Or.inl rfl⟩
  · exact ⟨u, t, hcons, Or.inr hu⟩

theorem StartsNumber.ne {u : UInt16} (h : StartsNumber u) {c : Char}
    (hd : isDigit (unit c) = false) (hm : unit '-' ≠ unit c) : u ≠ unit c := by
  rintro rfl
  rcases h with h | h
  · exact hm h.symm
  · rw [hd] at h
    exact Bool.noConfusion h

theorem StartsNumber.notSpace {u : UInt16} (h : StartsNumber u) : isSpace u = false := by
  rcases h with rfl | h
  · decide
  · rw [isDigit, Bool.and_eq_true, decide_eq_true_eq] at h
    have hge : 48 ≤ u.toNat := by simpa [UInt16.le_iff_toNat_le] using h.1
    have hne : ∀ n : UInt16, n.toNat < 48 → u ≠ n := fun n hn hc => by
      rw [hc] at hge
      omega
    simp [isSpace, hne 32 (by decide), hne 9 (by decide), hne 10 (by decide), hne 13 (by decide)]

/-- A value's text starts with neither a space nor a closing bracket. -/
theorem jsonText_head (v : JsValue) :
    ∃ u t, jsonText v = u :: t ∧ isSpace u = false ∧ u ≠ unit ']' := by
  have hnull : js "null" = unit 'n' :: [unit 'u', unit 'l', unit 'l'] := by decide
  cases v with
  | undefined => exact ⟨_, _, hnull, by decide, by decide⟩
  | null => exact ⟨_, _, hnull, by decide, by decide⟩
  | bool b =>
      cases b
      · exact ⟨unit 'f', [unit 'a', unit 'l', unit 's', unit 'e'], by simp [jsonText]; decide,
          by decide, by decide⟩
      · exact ⟨unit 't', [unit 'r', unit 'u', unit 'e'], by simp [jsonText]; decide, by decide,
          by decide⟩
  | num n =>
      cases n with
      | finite d =>
          obtain ⟨u, t, hcons, hu⟩ := d.text_head
          exact ⟨u, t, by simp [jsonText, JsNumber.isFinite, JsNumber.text, hcons], hu.notSpace,
            hu.ne (by decide) (by decide)⟩
      | nan => exact ⟨_, _, by rw [jsonText, if_neg (by simp [JsNumber.isFinite]), hnull],
          by decide, by decide⟩
      | infinity b => exact ⟨_, _, by rw [jsonText, if_neg (by simp [JsNumber.isFinite]), hnull],
          by decide, by decide⟩
  | str s => exact ⟨_, _, by rw [jsonText, quote], by decide, by decide⟩
  | arr items => exact ⟨_, _, by rw [jsonText], by decide, by decide⟩
  | obj fields => exact ⟨_, _, by rw [jsonText], by decide, by decide⟩

theorem skipSpace_jsonText (v : JsValue) (r : JsString) :
    skipSpace (jsonText v ++ r) = jsonText v ++ r := by
  obtain ⟨u, t, hcons, hu, -⟩ := jsonText_head v
  rw [hcons, List.cons_append, skipSpace_cons hu]

/-! ### The three kinds of text -/

theorem parseValue_null (fuel : Nat) (r : JsString) :
    parseValue (fuel + 1) (js "null" ++ r) = some (.null, r) := by
  have hafter := afterPrefix_append (js "null") r
  have hnull : js "null" = unit 'n' :: [unit 'u', unit 'l', unit 'l'] := by decide
  simp only [hnull, List.cons_append, List.nil_append] at hafter ⊢
  rw [parseValue, skipSpace_cons (by decide)]
  simp only [if_neg (show unit 'n' ≠ unit '"' by decide), if_neg (show unit 'n' ≠ unit '[' by decide),
    if_neg (show unit 'n' ≠ unit '\x7b' by decide), if_pos]
  rw [hnull, hafter]
  rfl

theorem parseValue_bool (b : Bool) (fuel : Nat) (r : JsString) :
    parseValue (fuel + 1) (jsonText (.bool b) ++ r) = some (.bool b, r) := by
  cases b
  · have hafter := afterPrefix_append (js "false") r
    have hword : js "false" = unit 'f' :: [unit 'a', unit 'l', unit 's', unit 'e'] := by decide
    simp only [jsonText, hword, List.cons_append, List.nil_append] at hafter ⊢
    rw [parseValue, skipSpace_cons (by decide)]
    simp only [if_neg (show unit 'f' ≠ unit '"' by decide),
      if_neg (show unit 'f' ≠ unit '[' by decide), if_neg (show unit 'f' ≠ unit '\x7b' by decide),
      if_neg (show unit 'f' ≠ unit 'n' by decide), if_neg (show unit 'f' ≠ unit 't' by decide), if_pos]
    rw [hword, hafter]
    rfl
  · have hafter := afterPrefix_append (js "true") r
    have hword : js "true" = unit 't' :: [unit 'r', unit 'u', unit 'e'] := by decide
    simp only [jsonText, hword, List.cons_append, List.nil_append] at hafter ⊢
    rw [parseValue, skipSpace_cons (by decide)]
    simp only [if_neg (show unit 't' ≠ unit '"' by decide),
      if_neg (show unit 't' ≠ unit '[' by decide), if_neg (show unit 't' ≠ unit '\x7b' by decide),
      if_neg (show unit 't' ≠ unit 'n' by decide), if_pos]
    rw [hword, hafter]
    rfl

theorem parseValue_num (d : Decimal) (fuel : Nat) {r : JsString} (hr : EndsNumber r) :
    parseValue (fuel + 1) (d.text ++ r) = some (.num (.finite d), r) := by
  have hparse := parseNumber_text d hr
  obtain ⟨u, t, hcons, hu⟩ := d.text_head
  rw [hcons, List.cons_append] at hparse ⊢
  rw [parseValue, skipSpace_cons hu.notSpace]
  simp only [if_neg (hu.ne (c := '"') (by decide) (by decide)),
    if_neg (hu.ne (c := '[') (by decide) (by decide)),
    if_neg (hu.ne (c := '\x7b') (by decide) (by decide)),
    if_neg (hu.ne (c := 'n') (by decide) (by decide)),
    if_neg (hu.ne (c := 't') (by decide) (by decide)),
    if_neg (hu.ne (c := 'f') (by decide) (by decide)), hparse]
  rfl

theorem parseValue_str (s : JsString) (fuel : Nat) (r : JsString) :
    parseValue (fuel + 1) (quote s ++ r) = some (.str s, r) := by
  have hstr := parseString_quoteFrom r s false
  simp only [quote, List.cons_append, List.append_assoc, List.nil_append]
  rw [parseValue, skipSpace_cons (by decide)]
  simp only [if_pos, hstr]
  rfl

theorem fieldTexts_eq_nil (fields : JsObject) :
    fieldTexts fields = [] ↔ JsValue.fieldsOnWire fields = [] := by
  induction fields with
  | nil => simp [fieldTexts, JsValue.fieldsOnWire]
  | cons p rest ih =>
      simp only [fieldTexts, JsValue.fieldsOnWire]
      split
      · exact ih
      · simp

theorem parseValue_emptyArr (fuel : Nat) (r : JsString) :
    parseValue (fuel + 1) (unit '[' :: unit ']' :: r) = some (.arr [], r) := by
  rw [parseValue, skipSpace_cons (by decide)]
  simp only [if_neg (show unit '[' ≠ unit '"' by decide), if_pos]
  rw [skipSpace_cons (by decide)]
  simp

theorem parseValue_emptyObj (fuel : Nat) (r : JsString) :
    parseValue (fuel + 1) (unit '\x7b' :: unit '\x7d' :: r) = some (.obj [], r) := by
  rw [parseValue, skipSpace_cons (by decide)]
  simp only [if_neg (show unit '\x7b' ≠ unit '"' by decide),
    if_neg (show unit '\x7b' ≠ unit '[' by decide), if_pos]
  rw [skipSpace_cons (by decide)]
  simp

/-- An opening bracket hands over to `parseItems`. -/
theorem parseValue_arr {fuel : Nat} {items : List JsValue} {v : JsValue} {s t r : JsString}
    (hs : s = jsonText v ++ t) (h : parseItems fuel s = some (items, r)) :
    parseValue (fuel + 1) (unit '[' :: s) = some (.arr items, r) := by
  obtain ⟨u, w, hcons, hu, hne⟩ := jsonText_head v
  rw [parseValue, skipSpace_cons (by decide)]
  simp only [if_neg (show unit '[' ≠ unit '"' by decide), if_pos]
  have hskip : skipSpace s = u :: (w ++ t) := by
    rw [hs, skipSpace_jsonText, hcons, List.cons_append]
  rw [hskip]
  simp only [if_neg hne, h]
  rfl

/-- An opening brace hands over to `parseMembers`. -/
theorem parseValue_obj {fuel : Nat} {fields : JsObject} {s t r : JsString}
    (hs : s = unit '"' :: t) (h : parseMembers fuel [] s = some (fields, r)) :
    parseValue (fuel + 1) (unit '\x7b' :: s) = some (.obj fields, r) := by
  rw [parseValue, skipSpace_cons (by decide)]
  simp only [if_neg (show unit '\x7b' ≠ unit '"' by decide),
    if_neg (show unit '\x7b' ≠ unit '[' by decide), if_pos]
  have hskip : skipSpace s = unit '"' :: t := by
    rw [hs, skipSpace_cons (by decide)]
  rw [hskip]
  simp only [if_neg (show unit '"' ≠ unit '\x7d' by decide), h]
  rfl

/-- A member starts with the quotation mark of its name. -/
theorem fieldTexts_head (fields : JsObject) (h : fieldTexts fields ≠ []) :
    ∃ t, joinComma (fieldTexts fields) = unit '"' :: t := by
  induction fields with
  | nil => exact absurd rfl h
  | cons p rest ih =>
      by_cases hu : p.2.isUndefined = true
      · have htexts : fieldTexts (p :: rest) = fieldTexts rest := by simp [fieldTexts, hu]
        rw [htexts] at h ⊢
        exact ih h
      · have htexts : fieldTexts (p :: rest)
            = (quote p.1 ++ unit ':' :: jsonText p.2) :: fieldTexts rest := by
          simp [fieldTexts, hu]
        rw [htexts]
        cases fieldTexts rest with
        | nil => exact ⟨_, rfl⟩
        | cons t ts => exact ⟨_, rfl⟩

theorem parseItems_last {fuel : Nat} {v : JsValue} {s r : JsString}
    (h : parseValue fuel s = some (v, unit ']' :: r)) :
    parseItems (fuel + 1) s = some ([v], r) := by
  rw [parseItems, h]
  simp only [Option.bind_eq_bind, Option.bind_some]
  rw [skipSpace_cons (by decide)]
  simp only [if_neg (show unit ']' ≠ unit ',' by decide), if_pos]

theorem parseItems_cons {fuel : Nat} {v : JsValue} {items : List JsValue} {s t r : JsString}
    (h : parseValue fuel s = some (v, unit ',' :: t)) (ht : parseItems fuel t = some (items, r)) :
    parseItems (fuel + 1) s = some (v :: items, r) := by
  rw [parseItems, h]
  simp only [Option.bind_eq_bind, Option.bind_some]
  rw [skipSpace_cons (by decide)]
  simp only [if_pos, ht]
  rfl

/-- A member is read up to the separator behind its value. -/
theorem parseMembers_step {fuel : Nat} {acc : JsObject} {key : JsString} {v : JsValue}
    {u : UInt16} {s t : JsString} (hu : isSpace u = false)
    (h : parseValue fuel s = some (v, u :: t)) :
    parseMembers (fuel + 1) acc (quote key ++ unit ':' :: s)
      = if u = unit ',' then parseMembers fuel (acc.set key v) t
        else if u = unit '\x7d' then some (acc.set key v, t)
        else none := by
  have hkey := parseString_quoteFrom (unit ':' :: s) key false
  simp only [quote, List.cons_append, List.append_assoc, List.nil_append]
  rw [parseMembers, skipSpace_cons (by decide)]
  simp only [if_pos, hkey]
  simp only [Option.bind_eq_bind, Option.bind_some]
  rw [skipSpace_cons (by decide)]
  simp only [if_pos, h, Option.bind_some]
  rw [skipSpace_cons hu]

/-! ### The round trip -/

theorem endsNumber_comma (r : JsString) : EndsNumber (unit ',' :: r) :=
  endsNumber_cons (by decide) (by decide) (by decide) (by decide)

theorem endsNumber_bracket (r : JsString) : EndsNumber (unit ']' :: r) :=
  endsNumber_cons (by decide) (by decide) (by decide) (by decide)

theorem endsNumber_brace (r : JsString) : EndsNumber (unit '\x7d' :: r) :=
  endsNumber_cons (by decide) (by decide) (by decide) (by decide)

/-- The value a receiver reads where `v` was printed. -/
def JsValue.received (v : JsValue) : JsValue := if v.isUndefined then .null else v.onWire

theorem JsValue.itemsOnWire_cons (v : JsValue) (rest : List JsValue) :
    itemsOnWire (v :: rest) = v.received :: itemsOnWire rest := rfl

/-- A non-empty list of texts, joined: the first one ends at a comma or at the end. -/
theorem joinComma_cons (t : JsString) (ts : List JsString) :
    joinComma (t :: ts) = t ++ (if ts = [] then [] else unit ',' :: joinComma ts) := by
  cases ts with
  | nil => simp
  | cons u us => simp

mutual

theorem parseValue_jsonText : ∀ (v : JsValue) (fuel : Nat) (r : JsString),
    v.wellFormed = true → (jsonText v).length ≤ fuel → EndsNumber r →
    parseValue fuel (jsonText v ++ r) = some (v.received, r)
  | v, 0, r, _, hfuel, _ => by
      obtain ⟨u, t, hcons, -⟩ := jsonText_head v
      rw [hcons] at hfuel
      simp at hfuel
  | .undefined, fuel + 1, r, _, _, _ => parseValue_null fuel r
  | .null, fuel + 1, r, _, _, _ => parseValue_null fuel r
  | .bool b, fuel + 1, r, _, _, _ => parseValue_bool b fuel r
  | .num n, fuel + 1, r, _, _, hr => by
      cases n with
      | finite d => exact parseValue_num d fuel hr
      | nan => exact parseValue_null fuel r
      | infinity b => exact parseValue_null fuel r
  | .str s, fuel + 1, r, _, _, _ => parseValue_str s fuel r
  | .arr items, fuel + 1, r, hwf, hfuel, _ => by
      rw [JsValue.wellFormed] at hwf
      simp only [jsonText, List.length_cons, List.length_append, List.length_nil] at hfuel ⊢
      simp only [List.cons_append, List.append_assoc, List.nil_append]
      cases items with
      | nil => exact parseValue_emptyArr fuel r
      | cons v rest =>
          refine parseValue_arr (v := v) (t := (if itemTexts rest = [] then []
            else unit ',' :: joinComma (itemTexts rest)) ++ unit ']' :: r) ?_ ?_
          · rw [itemTexts, joinComma_cons, List.append_assoc]
          · exact parseItems_itemTexts (v :: rest) fuel r (by simp) hwf (by omega)
  | .obj fields, fuel + 1, r, hwf, hfuel, _ => by
      rw [JsValue.wellFormed, JsValue.wellFormedFields_iff] at hwf
      simp only [jsonText, List.length_cons, List.length_append, List.length_nil] at hfuel ⊢
      simp only [List.cons_append, List.append_assoc, List.nil_append]
      by_cases hnil : fieldTexts fields = []
      · have hwire := (fieldTexts_eq_nil fields).mp hnil
        rw [hnil]
        simp only [joinComma_nil, List.nil_append]
        rw [parseValue_emptyObj, JsValue.received, JsValue.onWire, hwire]
        rfl
      · have hmembers := parseMembers_fieldTexts fields fuel [] r hnil
          (by simpa [JsObject.keys] using hwf.1) hwf.2 (by omega)
        obtain ⟨t, ht⟩ := fieldTexts_head fields hnil
        rw [ht] at hmembers ⊢
        exact parseValue_obj rfl hmembers

theorem parseItems_itemTexts : ∀ (items : List JsValue) (fuel : Nat) (r : JsString),
    items ≠ [] → JsValue.wellFormedItems items = true →
    (joinComma (itemTexts items)).length < fuel →
    parseItems fuel (joinComma (itemTexts items) ++ unit ']' :: r)
      = some (JsValue.itemsOnWire items, r)
  | _, 0, _, _, _, hfuel => absurd hfuel (Nat.not_lt_zero _)
  | [], _, _, hne, _, _ => absurd rfl hne
  | [v], fuel + 1, r, _, hwf, hfuel => by
      simp only [JsValue.wellFormedItems, Bool.and_true] at hwf
      simp only [itemTexts, joinComma_singleton] at hfuel ⊢
      exact parseItems_last
        (parseValue_jsonText v fuel (unit ']' :: r) hwf (by omega) (endsNumber_bracket r))
  | v :: w :: rest, fuel + 1, r, _, hwf, hfuel => by
      rw [JsValue.wellFormedItems, Bool.and_eq_true] at hwf
      have htexts : joinComma (itemTexts (v :: w :: rest))
          = jsonText v ++ unit ',' :: joinComma (itemTexts (w :: rest)) := rfl
      rw [htexts] at hfuel ⊢
      simp only [List.length_append, List.length_cons] at hfuel
      rw [List.append_assoc, List.cons_append, JsValue.itemsOnWire_cons]
      exact parseItems_cons
        (parseValue_jsonText v fuel _ hwf.1 (by omega) (endsNumber_comma _))
        (parseItems_itemTexts (w :: rest) fuel r (by simp) hwf.2 (by omega))

theorem parseMembers_fieldTexts : ∀ (fields : JsObject) (fuel : Nat) (acc : JsObject)
    (r : JsString), fieldTexts fields ≠ [] → (acc.keys ++ fields.keys).Nodup →
    (∀ p ∈ fields, p.2.wellFormed = true) → (joinComma (fieldTexts fields)).length < fuel →
    parseMembers fuel acc (joinComma (fieldTexts fields) ++ unit '\x7d' :: r)
      = some (acc ++ JsValue.fieldsOnWire fields, r)
  | _, 0, _, _, _, _, _, hfuel => absurd hfuel (Nat.not_lt_zero _)
  | [], _, _, _, hne, _, _, _ => absurd rfl hne
  | (key, v) :: rest, fuel + 1, acc, r, hne, hnodup, hwf, hfuel => by
      have hnotmem : key ∉ acc.keys := by
        intro hc
        exact (List.nodup_append.mp hnodup).2.2 key hc key (by simp) rfl
      have hrest : ∀ p ∈ rest, p.2.wellFormed = true := fun p hp => hwf p (by simp [hp])
      have hv : v.wellFormed = true := hwf (key, v) (by simp)
      by_cases hu : v.isUndefined = true
      · -- a dropped member leaves no text
        have htexts : fieldTexts ((key, v) :: rest) = fieldTexts rest := by simp [fieldTexts, hu]
        have hwire : JsValue.fieldsOnWire ((key, v) :: rest) = JsValue.fieldsOnWire rest := by
          simp [JsValue.fieldsOnWire, hu]
        rw [htexts] at hne hfuel ⊢
        rw [hwire]
        refine parseMembers_fieldTexts rest (fuel + 1) acc r hne ?_ hrest hfuel
        exact hnodup.sublist ((List.sublist_cons_self key (JsObject.keys rest)).append_left acc.keys)
      · have hrecv : v.received = v.onWire := by simp [JsValue.received, hu]
        have htexts : fieldTexts ((key, v) :: rest)
            = (quote key ++ unit ':' :: jsonText v) :: fieldTexts rest := by
          simp [fieldTexts, hu]
        have hwire : JsValue.fieldsOnWire ((key, v) :: rest)
            = (key, v.onWire) :: JsValue.fieldsOnWire rest := by
          simp [JsValue.fieldsOnWire, hu]
        rw [htexts, joinComma_cons] at hfuel ⊢
        rw [hwire]
        by_cases hnil : fieldTexts rest = []
        · have hdone := (fieldTexts_eq_nil rest).mp hnil
          rw [if_pos hnil] at hfuel ⊢
          simp only [List.append_nil, List.length_append, List.length_cons] at hfuel
          simp only [List.append_nil, List.append_assoc, List.cons_append]
          have hparse := parseValue_jsonText v fuel (unit '\x7d' :: r) hv (by omega)
            (endsNumber_brace r)
          rw [hrecv] at hparse
          rw [parseMembers_step (by decide) hparse, if_neg (by decide), if_pos rfl,
            JsObject.set_of_not_mem hnotmem, hdone]
        · rw [if_neg hnil] at hfuel ⊢
          simp only [List.length_append, List.length_cons] at hfuel
          simp only [List.append_assoc, List.cons_append]
          have hparse := parseValue_jsonText v fuel
            (unit ',' :: (joinComma (fieldTexts rest) ++ unit '\x7d' :: r)) hv (by omega)
            (endsNumber_comma _)
          rw [hrecv] at hparse
          rw [parseMembers_step (by decide) hparse, if_pos rfl,
            JsObject.set_of_not_mem hnotmem]
          rw [parseMembers_fieldTexts rest fuel _ r hnil ?_ hrest (by omega)]
          · simp
          · simpa [JsObject.keys] using hnodup

end

/-- **Parsing the text of a value gives the value a receiver sees.** -/
theorem parse_jsonText (v : JsValue) (hwf : v.wellFormed = true) :
    parse (jsonText v) = some v.received := by
  have h := parseValue_jsonText v (jsonText v).length [] hwf (Nat.le_refl _) endsNumber_nil
  rw [List.append_nil] at h
  rw [parse, h]
  show (if skipSpace [] = [] then some v.received else none) = some v.received
  exact if_pos rfl

/-- **A stored payload parses to the message it was made from.** -/
theorem parseObject_stringifyObject (o : JsObject) (hwf : (JsValue.obj o).wellFormed = true) :
    parseObject (stringifyObject o) = some o.onWire := by
  rw [parseObject, stringifyObject, parse_jsonText _ hwf]
  rfl

/-! ### Printing what was decoded -/

mutual

/-- What has been on the wire has the same text again. -/
theorem jsonText_onWire : ∀ (v : JsValue), jsonText v.onWire = jsonText v
  | .num n => by
      rw [JsValue.onWire]
      by_cases hn : n.isFinite = true
      · rw [if_pos hn]
      · rw [if_neg hn, jsonText, jsonText, if_neg hn]
  | .arr items => by rw [JsValue.onWire, jsonText, jsonText, itemTexts_onWire items]
  | .obj fields => by rw [JsValue.onWire, jsonText, jsonText, fieldTexts_onWire fields]
  | .undefined => rfl
  | .null => rfl
  | .bool _ => rfl
  | .str _ => rfl

theorem itemTexts_onWire : ∀ (items : List JsValue),
    itemTexts (JsValue.itemsOnWire items) = itemTexts items
  | [] => rfl
  | v :: rest => by
      rw [JsValue.itemsOnWire, itemTexts, itemTexts, itemTexts_onWire rest]
      congr 1
      cases v with
      | undefined => rfl
      | _ => exact jsonText_onWire _

theorem fieldTexts_onWire : ∀ (fields : JsObject),
    fieldTexts (JsValue.fieldsOnWire fields) = fieldTexts fields
  | [] => rfl
  | (key, v) :: rest => by
      rw [JsValue.fieldsOnWire, fieldTexts]
      by_cases hv : v.isUndefined = true
      · rw [if_pos hv, if_pos hv, fieldTexts_onWire rest]
      · rw [if_neg hv, if_neg hv, fieldTexts, JsValue.onWire_isUndefined v (by simpa using hv),
          if_neg Bool.false_ne_true, jsonText_onWire v, fieldTexts_onWire rest]

end

theorem stringifyObject_onWire (o : JsObject) : stringifyObject o.onWire = stringifyObject o :=
  jsonText_onWire (.obj o)

end HuginAgent
