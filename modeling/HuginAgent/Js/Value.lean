/-
JavaScript values, as far as messages and payloads hold them.

`undefined` is one of them: the message builders write optional fields as
properties whose value is `undefined`, and it is `JSON.stringify` and
`jcsCanonicalize` that leave such a property out.  `JsValue.onWire` is the value
that survives a trip through JSON text, and `JsValue.wellFormed` says that no
object has two properties of one name, which every JavaScript object satisfies.

Properties are kept in creation order.  An object that is written out property by
property has no integer-like name; where a name may come from outside, `propertyOrder`
says which place JavaScript gives it.
-/
import HuginAgent.Js.Number

namespace HuginAgent

inductive JsValue
  | undefined
  | null
  | bool (b : Bool)
  | num (n : JsNumber)
  | str (s : JsString)
  | arr (items : List JsValue)
  | obj (fields : List (JsString × JsValue))

/-- An object: its own properties, in creation order. -/
abbrev JsObject := List (JsString × JsValue)

namespace JsValue

def ofNat (n : Nat) : JsValue := .num (.ofInt n)

theorem ofNat_injective {m n : Nat} (h : ofNat m = ofNat n) : m = n := by
  injection h with h
  injection h with h
  exact Decimal.ofInt_natCast_injective h

/-- A string literal as a value. -/
def lit (s : String) : JsValue := .str (js s)

def isUndefined : JsValue → Bool
  | undefined => true
  | _ => false

/-- `v ?? otherwise`. -/
def orElse (v otherwise : JsValue) : JsValue :=
  match v with
  | .undefined | .null => otherwise
  | v => v

/-- An optional property. -/
def optional {α : Type} (f : α → JsValue) : Option α → JsValue
  | none => undefined
  | some a => f a

end JsValue

namespace JsObject

/-- `o[key]`. -/
def get (o : JsObject) (key : JsString) : JsValue :=
  match o.find? fun p => p.1 == key with
  | some p => p.2
  | none => .undefined

/-- `o[key] = v`: an existing property keeps its place. -/
def set : JsObject → JsString → JsValue → JsObject
  | [], key, v => [(key, v)]
  | p :: rest, key, v => if p.1 = key then (key, v) :: rest else p :: set rest key v

/-- `const { id, ts, ...rest } = o`. -/
def without (o : JsObject) (keys : List JsString) : JsObject :=
  o.filter fun p => !keys.contains p.1

def keys (o : JsObject) : List JsString := o.map Prod.fst

@[simp] theorem keys_cons (p : JsString × JsValue) (o : JsObject) :
    keys (p :: o) = p.1 :: keys o := rfl

theorem mem_of_get {o : JsObject} {key : JsString} (h : (o.get key).isUndefined = false) :
    (key, o.get key) ∈ o := by
  rw [get] at h ⊢
  split
  · rename_i p hp
    have hkey : p.1 = key := by simpa using List.find?_some hp
    subst hkey
    exact List.mem_of_find?_eq_some hp
  · rename_i hnone
    rw [hnone] at h
    cases h

theorem get_set_self (o : JsObject) (key : JsString) (v : JsValue) :
    (o.set key v).get key = v := by
  induction o with
  | nil => simp [set, get]
  | cons p rest ih =>
      by_cases h : p.1 = key
      · simp [set, get, h]
      · simpa [set, get, h] using ih

theorem get_set_of_ne (o : JsObject) {key k : JsString} (v : JsValue) (h : k ≠ key) :
    (o.set key v).get k = o.get k := by
  induction o with
  | nil => simp [set, get, Ne.symm h]
  | cons p rest ih =>
      by_cases hp : p.1 = key
      · simp [set, get, hp, Ne.symm h]
      · simp only [set, if_neg hp]
        by_cases hk : p.1 = k
        · simp [get, hk]
        · simpa [get, hk] using ih

theorem mem_set {o : JsObject} {key : JsString} {v : JsValue} {p : JsString × JsValue}
    (h : p ∈ o.set key v) : p = (key, v) ∨ p ∈ o := by
  induction o with
  | nil => exact Or.inl (by simpa [set] using h)
  | cons q rest ih =>
      by_cases hq : q.1 = key
      · simp only [set, if_pos hq, List.mem_cons] at h ⊢
        tauto
      · simp only [set, if_neg hq, List.mem_cons] at h ⊢
        rcases h with h | h
        · exact Or.inr (Or.inl h)
        · exact (ih h).imp_right Or.inr

theorem mem_set_self (o : JsObject) (key : JsString) (v : JsValue) : (key, v) ∈ o.set key v := by
  induction o with
  | nil => exact List.mem_singleton_self _
  | cons p rest ih =>
      rw [set]
      split
      · exact List.mem_cons_self
      · exact List.mem_cons_of_mem _ ih

theorem mem_keys_set {o : JsObject} {key k : JsString} {v : JsValue} (h : k ∈ (o.set key v).keys) :
    k = key ∨ k ∈ o.keys := by
  obtain ⟨p, hp, rfl⟩ := List.mem_map.mp h
  rcases mem_set hp with rfl | hmem
  · exact Or.inl rfl
  · exact Or.inr (List.mem_map.mpr ⟨p, hmem, rfl⟩)

theorem nodup_keys_set {o : JsObject} (h : o.keys.Nodup) (key : JsString) (v : JsValue) :
    (o.set key v).keys.Nodup := by
  induction o with
  | nil => simp [set, keys]
  | cons p rest ih =>
      rw [keys_cons, List.nodup_cons] at h
      by_cases hp : p.1 = key
      · simp only [set, if_pos hp, keys_cons, List.nodup_cons]
        exact ⟨hp ▸ h.1, h.2⟩
      · simp only [set, if_neg hp, keys_cons, List.nodup_cons]
        refine ⟨fun hc => ?_, ih h.2⟩
        rcases mem_keys_set hc with hc | hc
        · exact hp hc
        · exact h.1 hc

/-- Appending a property of a new name. -/
theorem set_of_not_mem {o : JsObject} {key : JsString} (h : key ∉ o.keys) (v : JsValue) :
    o.set key v = o ++ [(key, v)] := by
  induction o with
  | nil => rfl
  | cons p rest ih =>
      rw [keys_cons, List.mem_cons, not_or] at h
      simp only [set, if_neg (Ne.symm h.1), List.cons_append]
      rw [ih h.2]

end JsObject

namespace JsValue

mutual

/-- No object inside has two properties of one name. -/
def wellFormed : JsValue → Bool
  | .arr items => wellFormedItems items
  | .obj fields => wellFormedFields fields
  | _ => true

def wellFormedItems : List JsValue → Bool
  | [] => true
  | v :: rest => v.wellFormed && wellFormedItems rest

def wellFormedFields : JsObject → Bool
  | [] => true
  | p :: rest => !(JsObject.keys rest).contains p.1 && p.2.wellFormed && wellFormedFields rest

end

mutual

/-- What is left of a value after `JSON.stringify` and `JSON.parse`. -/
def onWire : JsValue → JsValue
  | .num n => if n.isFinite then .num n else .null
  | .arr items => .arr (itemsOnWire items)
  | .obj fields => .obj (fieldsOnWire fields)
  | v => v

/-- An `undefined` element of an array becomes `null`. -/
def itemsOnWire : List JsValue → List JsValue
  | [] => []
  | v :: rest => (if v.isUndefined then .null else v.onWire) :: itemsOnWire rest

/-- A property whose value is `undefined` is dropped. -/
def fieldsOnWire : JsObject → JsObject
  | [] => []
  | p :: rest =>
      if p.2.isUndefined then fieldsOnWire rest else (p.1, p.2.onWire) :: fieldsOnWire rest

end

theorem wellFormedFields_iff (o : JsObject) :
    wellFormedFields o = true ↔ o.keys.Nodup ∧ ∀ p ∈ o, p.2.wellFormed = true := by
  induction o with
  | nil => simp [wellFormedFields, JsObject.keys]
  | cons p rest ih =>
      simp only [wellFormedFields, Bool.and_eq_true, Bool.not_eq_true', JsObject.keys_cons,
        List.nodup_cons, List.forall_mem_cons, ih]
      rw [← Bool.not_eq_true, List.contains_iff_mem]
      tauto

/-- A value other than `undefined` stays one on the wire. -/
theorem onWire_isUndefined (v : JsValue) (h : v.isUndefined = false) :
    v.onWire.isUndefined = false := by
  cases v with
  | num n =>
      simp only [onWire]
      split <;> rfl
  | undefined => exact absurd h (by simp [isUndefined])
  | _ => simp [onWire, isUndefined]

end JsValue

namespace JsObject

/-- The object a receiver decodes. -/
abbrev onWire (o : JsObject) : JsObject := JsValue.fieldsOnWire o

theorem onWire_keys_sublist (o : JsObject) : o.onWire.keys.Sublist o.keys := by
  induction o with
  | nil => exact List.Sublist.refl _
  | cons q rest ih =>
      simp only [onWire, JsValue.fieldsOnWire]
      split
      · exact ih.cons q.1
      · exact ih.cons_cons q.1

/-- What a property of a decoded object holds. -/
theorem get_onWire (o : JsObject) (h : o.keys.Nodup) (key : JsString) :
    o.onWire.get key = (o.get key).onWire := by
  induction o with
  | nil => rfl
  | cons q rest ih =>
      rw [keys_cons, List.nodup_cons] at h
      have ih := ih h.2
      by_cases hk : q.1 = key
      · by_cases hq : q.2.isUndefined = true
        · -- the dropped property was the only one of its name
          have hu : q.2 = .undefined := by
            cases hv : q.2 with
            | undefined => rfl
            | _ => simp [hv, JsValue.isUndefined] at hq
          have hnone : rest.find? (fun p => p.1 == key) = none := by
            rw [List.find?_eq_none]
            intro p hp hc
            rw [beq_iff_eq] at hc
            exact h.1 (List.mem_map.mpr ⟨p, hp, hc.trans hk.symm⟩)
          simp only [onWire, JsValue.fieldsOnWire, if_pos hq]
          rw [ih]
          simp [get, hk, hu, hnone]
        · simp [onWire, JsValue.fieldsOnWire, hq, get, hk]
      · by_cases hq : q.2.isUndefined = true
        · simp only [onWire, JsValue.fieldsOnWire, if_pos hq]
          rw [ih]
          simp [get, hk]
        · simp only [onWire, JsValue.fieldsOnWire, if_neg hq]
          simpa [get, hk] using ih

end JsObject

namespace JsValue

mutual

theorem onWire_wellFormed : ∀ (v : JsValue), v.wellFormed = true → v.onWire.wellFormed = true
  | .num n, _ => by
      rw [onWire]
      split <;> rfl
  | .arr items, h => itemsOnWire_wellFormed items h
  | .obj fields, h => by
      rw [onWire, wellFormed, wellFormedFields_iff]
      have hall := (wellFormedFields_iff fields).mp h
      refine ⟨(JsObject.onWire_keys_sublist fields).nodup hall.1, ?_⟩
      exact fieldsOnWire_wellFormed fields hall.2
  | .undefined, _ => rfl
  | .null, _ => rfl
  | .bool _, _ => rfl
  | .str _, _ => rfl

theorem itemsOnWire_wellFormed : ∀ (items : List JsValue), wellFormedItems items = true →
    wellFormedItems (itemsOnWire items) = true
  | [], _ => rfl
  | v :: rest, h => by
      rw [wellFormedItems, Bool.and_eq_true] at h
      rw [itemsOnWire, wellFormedItems, Bool.and_eq_true]
      refine ⟨?_, itemsOnWire_wellFormed rest h.2⟩
      split
      · rfl
      · exact onWire_wellFormed v h.1

theorem fieldsOnWire_wellFormed : ∀ (fields : JsObject),
    (∀ p ∈ fields, p.2.wellFormed = true) → ∀ p ∈ fieldsOnWire fields, p.2.wellFormed = true
  | [], _ => fun _ hp => absurd hp (by simp [fieldsOnWire])
  | (key, v) :: rest, h => by
      rw [List.forall_mem_cons] at h
      rw [fieldsOnWire]
      split
      · exact fieldsOnWire_wellFormed rest h.2
      · rw [List.forall_mem_cons]
        exact ⟨onWire_wellFormed v h.1, fieldsOnWire_wellFormed rest h.2⟩

end

mutual

/-- What has been on the wire stays as it is. -/
theorem onWire_onWire : ∀ (v : JsValue), v.onWire.onWire = v.onWire
  | .num n => by
      by_cases hn : n.isFinite = true
      · simp [onWire, hn]
      · simp [onWire, hn]
  | .arr items => congrArg JsValue.arr (itemsOnWire_onWire items)
  | .obj fields => congrArg JsValue.obj (fieldsOnWire_onWire fields)
  | .undefined => rfl
  | .null => rfl
  | .bool _ => rfl
  | .str _ => rfl

theorem itemsOnWire_onWire : ∀ (items : List JsValue),
    itemsOnWire (itemsOnWire items) = itemsOnWire items
  | [] => rfl
  | v :: rest => by
      rw [itemsOnWire, itemsOnWire, itemsOnWire_onWire rest]
      congr 1
      by_cases hv : v.isUndefined = true
      · rw [if_pos hv]
        rfl
      · rw [if_neg hv]
        rw [Bool.not_eq_true] at hv
        rw [onWire_isUndefined v hv, onWire_onWire v]
        rfl

theorem fieldsOnWire_onWire : ∀ (fields : JsObject),
    fieldsOnWire (fieldsOnWire fields) = fieldsOnWire fields
  | [] => rfl
  | (key, v) :: rest => by
      by_cases hv : v.isUndefined = true
      · rw [fieldsOnWire, if_pos hv]
        exact fieldsOnWire_onWire rest
      · rw [Bool.not_eq_true] at hv
        simp only [fieldsOnWire, hv, onWire_isUndefined v hv, Bool.false_eq_true, if_false]
        rw [onWire_onWire v, fieldsOnWire_onWire rest]

end

end JsValue

end HuginAgent
