/-
Values that go through JSON as they are.

What `JSON.parse` makes of a printed value differs from it in three things: a property without a
value is gone, a number is read as the double next to it, and array indices come before the other
names.  A value in which nothing of the kind can happen is carried: it comes out as it went in.
Every message of the protocol is of this form, as its names are words and its numbers are safe
integers.
-/
import HuginAgent.Js.Texts

namespace HuginAgent

namespace JsValue

variable (number : Decimal → JsNumber)

mutual

/-- `number` is how the digits of a number are read. -/
def carried : JsValue → Bool
  | .undefined => false
  | .num (.finite d) => number d = .finite d
  | .num _ => false
  | .arr items => carriedItems items
  | .obj fields => carriedFields fields
  | _ => true

def carriedItems : List JsValue → Bool
  | [] => true
  | v :: rest => v.carried && carriedItems rest

def carriedFields : JsObject → Bool
  | [] => true
  | p :: rest =>
      !(JsObject.keys rest).contains p.1 && !isIndexKey p.1 && p.2.carried && carriedFields rest

end

variable {number}

theorem carriedItems_iff {items : List JsValue} :
    carriedItems number items = true ↔ ∀ v ∈ items, v.carried number = true := by
  induction items with
  | nil => exact iff_of_true rfl (List.forall_mem_nil _)
  | cons v rest ih => rw [carriedItems, Bool.and_eq_true, ih, List.forall_mem_cons]

theorem carriedFields_cons {p : JsString × JsValue} {rest : JsObject} :
    carriedFields number (p :: rest) = true ↔
      (p.1 ∉ JsObject.keys rest ∧ isIndexKey p.1 = false) ∧ p.2.carried number = true ∧
        carriedFields number rest = true := by
  rw [carriedFields, Bool.and_eq_true, Bool.and_eq_true, Bool.and_eq_true, Bool.not_eq_true',
    Bool.not_eq_true', ← Bool.not_eq_true, List.contains_iff_mem, and_assoc]

theorem carriedFields_iff {fields : JsObject} :
    carriedFields number fields = true ↔
      JsObject.AreNames (JsObject.keys fields) ∧ ∀ p ∈ fields, p.2.carried number = true := by
  induction fields with
  | nil => exact iff_of_true rfl ⟨⟨List.nodup_nil, List.forall_mem_nil _⟩, List.forall_mem_nil _⟩
  | cons p rest ih =>
      rw [carriedFields_cons, ih, JsObject.keys_cons, List.forall_mem_cons]
      constructor
      · rintro ⟨⟨hnew, hname⟩, hp, hnames, hrest⟩
        exact ⟨⟨List.nodup_cons.mpr ⟨hnew, hnames.nodup⟩,
          List.forall_mem_cons.mpr ⟨hname, hnames.plain⟩⟩, hp, hrest⟩
      · rintro ⟨hnames, hp, hrest⟩
        obtain ⟨hnew, hnodup⟩ := List.nodup_cons.mp hnames.nodup
        obtain ⟨hname, hplain⟩ := List.forall_mem_cons.mp hnames.plain
        exact ⟨⟨hnew, hname⟩, hp, ⟨hnodup, hplain⟩, hrest⟩

/-- **Objects are carried whose names are words and whose values are carried.** -/
theorem carried_obj {fields : JsObject} (hnames : JsObject.AreNames (JsObject.keys fields))
    (h : ∀ p ∈ fields, p.2.carried number = true) : (JsValue.obj fields).carried number = true :=
  carriedFields_iff.mpr ⟨hnames, h⟩

theorem carried_arr_map {α : Type} {f : α → JsValue} {l : List α}
    (h : ∀ x ∈ l, (f x).carried number = true) : (JsValue.arr (l.map f)).carried number = true := by
  refine carriedItems_iff.mpr ?_
  rw [List.forall_mem_map]
  exact h

theorem isUndefined_of_carried {v : JsValue} (h : v.carried number = true) :
    v.isUndefined = false := by
  cases v with
  | undefined => exact absurd h Bool.false_ne_true
  | _ => rfl

/-! ### The three ways in which a value may change -/

mutual

theorem wellFormed_of_carried : ∀ (v : JsValue), v.carried number = true → v.wellFormed = true
  | .undefined, _ => rfl
  | .null, _ => rfl
  | .bool _, _ => rfl
  | .num _, _ => rfl
  | .str _, _ => rfl
  | .arr items, h => wellFormedItems_of_carried items h
  | .obj fields, h => wellFormedFields_of_carried fields h

theorem wellFormedItems_of_carried : ∀ (items : List JsValue),
    carriedItems number items = true → wellFormedItems items = true
  | [], _ => rfl
  | v :: rest, h => by
      rw [carriedItems, Bool.and_eq_true] at h
      rw [wellFormedItems, wellFormed_of_carried v h.1, wellFormedItems_of_carried rest h.2]
      rfl

theorem wellFormedFields_of_carried : ∀ (fields : JsObject),
    carriedFields number fields = true → wellFormedFields fields = true
  | [], _ => rfl
  | p :: rest, h => by
      rw [carriedFields_cons] at h
      obtain ⟨⟨hnew, -⟩, hp, hrest⟩ := h
      have hfresh : (JsObject.keys rest).contains p.1 = false := by
        rw [← Bool.not_eq_true, List.contains_iff_mem]
        exact hnew
      rw [wellFormedFields, hfresh, wellFormed_of_carried p.2 hp,
        wellFormedFields_of_carried rest hrest]
      rfl

end

mutual

theorem onWire_of_carried : ∀ (v : JsValue), v.carried number = true → v.onWire = v
  | .undefined, _ => rfl
  | .null, _ => rfl
  | .bool _, _ => rfl
  | .num (.finite _), _ => rfl
  | .num .nan, h => absurd h Bool.false_ne_true
  | .num (.infinity _), h => absurd h Bool.false_ne_true
  | .str _, _ => rfl
  | .arr items, h => congrArg JsValue.arr (itemsOnWire_of_carried items h)
  | .obj fields, h => congrArg JsValue.obj (fieldsOnWire_of_carried fields h)

theorem itemsOnWire_of_carried : ∀ (items : List JsValue),
    carriedItems number items = true → itemsOnWire items = items
  | [], _ => rfl
  | v :: rest, h => by
      rw [carriedItems, Bool.and_eq_true] at h
      rw [itemsOnWire, isUndefined_of_carried h.1, if_neg Bool.false_ne_true,
        onWire_of_carried v h.1, itemsOnWire_of_carried rest h.2]

theorem fieldsOnWire_of_carried : ∀ (fields : JsObject),
    carriedFields number fields = true → fieldsOnWire fields = fields
  | [], _ => rfl
  | p :: rest, h => by
      rw [carriedFields_cons] at h
      obtain ⟨-, hp, hrest⟩ := h
      rw [fieldsOnWire, isUndefined_of_carried hp, if_neg Bool.false_ne_true,
        onWire_of_carried p.2 hp, fieldsOnWire_of_carried rest hrest]

end

mutual

theorem loaded_of_carried : ∀ (v : JsValue), v.carried number = true → v.loaded number = v
  | .undefined, _ => rfl
  | .null, _ => rfl
  | .bool _, _ => rfl
  | .num (.finite d), h => congrArg JsValue.num (of_decide_eq_true h)
  | .num .nan, _ => rfl
  | .num (.infinity _), _ => rfl
  | .str _, _ => rfl
  | .arr items, h => congrArg JsValue.arr (loadedItems_of_carried items h)
  | .obj fields, h => by
      have hnames := (carriedFields_iff.mp h).1
      rw [loaded, loadedFields_of_carried fields h, JsObject.propertyOrder_of_names hnames.plain]

theorem loadedItems_of_carried : ∀ (items : List JsValue),
    carriedItems number items = true → loadedItems number items = items
  | [], _ => rfl
  | v :: rest, h => by
      rw [carriedItems, Bool.and_eq_true] at h
      rw [loadedItems, loaded_of_carried v h.1, loadedItems_of_carried rest h.2]

theorem loadedFields_of_carried : ∀ (fields : JsObject),
    carriedFields number fields = true → loadedFields number fields = fields
  | [], _ => rfl
  | p :: rest, h => by
      rw [carriedFields_cons] at h
      obtain ⟨-, hp, hrest⟩ := h
      rw [loadedFields, loaded_of_carried p.2 hp, loadedFields_of_carried rest hrest]

end

/-- **What is carried comes out of `JSON.parse` as it went into `JSON.stringify`.** -/
theorem parse_carried {v : JsValue} (h : v.carried number = true) :
    (parse (jsonText v)).map (loaded number) = some v := by
  rw [parse_jsonText v (wellFormed_of_carried v h), received, isUndefined_of_carried h,
    if_neg Bool.false_ne_true, onWire_of_carried v h, Option.map_some, loaded_of_carried v h]

/-! ### The parts of a message -/

@[simp] theorem carried_str (s : JsString) : (JsValue.str s).carried number = true := rfl

@[simp] theorem carried_lit (s : String) : (JsValue.lit s).carried number = true := rfl

@[simp] theorem carried_bool (b : Bool) : (JsValue.bool b).carried number = true := rfl

theorem carried_ofNat {n : Nat} (h : number (.ofInt n) = .ofInt n) :
    (JsValue.ofNat n).carried number = true :=
  decide_eq_true h

end JsValue

end HuginAgent
