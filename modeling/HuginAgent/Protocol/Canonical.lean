/-
The canonical text says what a value is, and nothing else.

`canonical` picks one value out of those that are the same to a receiver: no `undefined`s,
and the properties of every object in the order of `jcsCanonicalize`.  The canonical text is
the JSON text of that value (`jcs_eq`), so what is known of JSON text is known of it: it
parses to the value, and values with one text are the same.  From there the digest of a
result is a matter of the result minus its envelope, whoever computes it from whichever
copy.
-/
import HuginAgent.Js.RoundTrip
import HuginAgent.Js.Same
import HuginAgent.Protocol.Digest
import Mathlib.Logic.Equiv.Basic

namespace HuginAgent

namespace JsValue

mutual

/-- A plain JSON-like value: numbers are finite, strings and keys are well-formed, and no object
has two properties of one name. -/
def plain : JsValue → Bool
  | .num n => n.isFinite
  | .str s => !hasLoneSurrogate s
  | .arr items => plainItems items
  | .obj fields => plainFields fields
  | _ => true

def plainItems : List JsValue → Bool
  | [] => true
  | v :: rest => v.plain && plainItems rest

def plainFields : JsObject → Bool
  | [] => true
  | p :: rest =>
      !(JsObject.keys rest).contains p.1 && !hasLoneSurrogate p.1 && p.2.plain && plainFields rest

end

mutual

/-- The value without its `undefined`s and with the properties of every object in order. -/
def canonical : JsValue → JsValue
  | .arr items => .arr (canonicalItems items)
  | .obj fields => .obj (sortKeys (canonicalFields fields))
  | v => v

def canonicalItems : List JsValue → List JsValue
  | [] => []
  | v :: rest => (if v.isUndefined then .null else v.canonical) :: canonicalItems rest

def canonicalFields : JsObject → JsObject
  | [] => []
  | p :: rest =>
      if p.2.isUndefined then canonicalFields rest
      else (p.1, p.2.canonical) :: canonicalFields rest

end

theorem plainFields_iff (o : JsObject) :
    plainFields o = true ↔ o.keys.Nodup ∧ ∀ p ∈ o, p.2.plain = true ∧ hasLoneSurrogate p.1 = false := by
  induction o with
  | nil => simp [plainFields, JsObject.keys]
  | cons p rest ih =>
      simp only [plainFields, Bool.and_eq_true, Bool.not_eq_true', JsObject.keys_cons,
        List.nodup_cons, List.forall_mem_cons, ih]
      rw [← Bool.not_eq_true, List.contains_iff_mem]
      tauto

theorem canonical_isUndefined (v : JsValue) : v.canonical.isUndefined = v.isUndefined := by
  cases v <;> rfl

theorem mem_canonicalFields {o : JsObject} {p : JsString × JsValue} :
    p ∈ canonicalFields o ↔ ∃ q ∈ o, q.2.isUndefined = false ∧ p = (q.1, q.2.canonical) := by
  induction o with
  | nil => simp [canonicalFields]
  | cons q rest ih =>
      rw [canonicalFields]
      by_cases hq : q.2.isUndefined = true
      · simp [hq, ih]
      · simp [hq, ih]

theorem keys_canonicalFields (o : JsObject) : (JsObject.keys (canonicalFields o)).Sublist o.keys := by
  induction o with
  | nil => exact List.Sublist.refl _
  | cons q rest ih =>
      rw [canonicalFields]
      split
      · exact ih.cons q.1
      · exact ih.cons_cons q.1

/-- The properties of a canonical object. -/
def canonicalObject (o : JsObject) : JsObject := sortKeys (canonicalFields o)

theorem mem_canonicalObject {o : JsObject} {p : JsString × JsValue} :
    p ∈ canonicalObject o ↔ ∃ q ∈ o, q.2.isUndefined = false ∧ p = (q.1, q.2.canonical) := by
  rw [canonicalObject, mem_sortKeys, mem_canonicalFields]

theorem nodup_canonicalObject {o : JsObject} (h : o.keys.Nodup) :
    (canonicalObject o).keys.Nodup := by
  have hperm : (canonicalObject o).keys.Perm (JsObject.keys (canonicalFields o)) :=
    (List.perm_insertionSort _ _).map Prod.fst
  exact hperm.nodup_iff.mpr ((keys_canonicalFields o).nodup h)

theorem sorted_canonicalObject (o : JsObject) :
    (canonicalObject o).Pairwise fun p q => p.1 ≤ q.1 := by
  have : Std.Total fun p q : JsString × JsValue => p.1 ≤ q.1 := ⟨fun p q => total_of (· ≤ ·) p.1 q.1⟩
  have : IsTrans (JsString × JsValue) fun p q => p.1 ≤ q.1 := ⟨fun _ _ _ h h' => trans_of (· ≤ ·) h h'⟩
  exact List.pairwise_insertionSort _ _

theorem eq_undefined {v : JsValue} (h : v.isUndefined = true) : v = .undefined := by
  cases v with
  | undefined => rfl
  | _ => cases h

end JsValue

namespace JsObject

theorem get_cons (p : JsString × JsValue) (o : JsObject) (key : JsString) :
    get (p :: o) key = if p.1 = key then p.2 else o.get key := by
  rw [get]
  by_cases hp : p.1 = key
  · rw [if_pos hp, List.find?_cons_of_pos (by simpa using hp)]
  · rw [if_neg hp, List.find?_cons_of_neg (by simpa using hp)]
    rfl

theorem get_of_mem {o : JsObject} (h : o.keys.Nodup) {p : JsString × JsValue} (hp : p ∈ o) :
    o.get p.1 = p.2 := by
  induction o with
  | nil => cases hp
  | cons q rest ih =>
      rw [keys_cons, List.nodup_cons] at h
      rcases List.mem_cons.mp hp with rfl | hp
      · simp [get]
      · have hne : q.1 ≠ p.1 := fun hc => h.1 (hc ▸ List.mem_map.mpr ⟨p, hp, rfl⟩)
        have ih := ih h.2 hp
        rw [get, List.find?_cons_of_neg (by simpa using hne)]
        exact ih

end JsObject

namespace JsValue

/-- The properties of the canonical value are those of the value. -/
theorem get_canonicalObject {o : JsObject} (h : o.keys.Nodup) (key : JsString) :
    (canonicalObject o).get key = (o.get key).canonical := by
  cases hu : (o.get key).isUndefined with
  | false =>
      exact JsObject.get_of_mem (nodup_canonicalObject h)
        (mem_canonicalObject.mpr ⟨_, JsObject.mem_of_get hu, hu, rfl⟩)
  | true =>
      rw [eq_undefined hu]
      cases hs : ((canonicalObject o).get key).isUndefined with
      | true => exact eq_undefined hs
      | false =>
          obtain ⟨q, hq, hqu, hpair⟩ := mem_canonicalObject.mp (JsObject.mem_of_get hs)
          injection hpair with hkey hvalue
          rw [hkey, JsObject.get_of_mem h hq] at hu
          cases hqu.symm.trans hu

theorem plain_get {o : JsObject} (h : plainFields o = true) (key : JsString) :
    (o.get key).plain = true := by
  cases hu : (o.get key).isUndefined with
  | false => exact (((plainFields_iff o).mp h).2 _ (JsObject.mem_of_get hu)).1
  | true =>
      rw [eq_undefined hu]
      rfl

theorem plain_getElem {items : List JsValue} (h : plainItems items = true) {i : Nat} {v : JsValue}
    (hv : items[i]? = some v) : v.plain = true := by
  induction items generalizing i with
  | nil => cases hv
  | cons w rest ih =>
      rw [plainItems, Bool.and_eq_true] at h
      cases i with
      | zero => exact Option.some.inj hv ▸ h.1
      | succ i => exact ih h.2 hv

theorem getElem_canonicalItems (items : List JsValue) (i : Nat) :
    (canonicalItems items)[i]? = (items[i]?).map fun v => v.element.canonical := by
  induction items generalizing i with
  | nil => rfl
  | cons w rest ih =>
      rw [canonicalItems]
      cases i with
      | zero =>
          simp only [List.getElem?_cons_zero, Option.map_some, element]
          split <;> rfl
      | succ i => simpa only [List.getElem?_cons_succ] using ih i

theorem plain_element {v : JsValue} (h : v.plain = true) : v.element.plain = true := by
  rw [element]
  split
  · rfl
  · exact h

/-! ### Values that are the same have one canonical value -/

theorem canonicalObject_eq {o o' : JsObject} (h : o.keys.Nodup) (h' : o'.keys.Nodup)
    (hget : ∀ key, (o.get key).canonical = (o'.get key).canonical) :
    canonicalObject o = canonicalObject o' := by
  have hsub : ∀ {a b : JsObject}, a.keys.Nodup → b.keys.Nodup →
      (∀ key, (a.get key).canonical = (b.get key).canonical) →
      ∀ p ∈ canonicalObject a, p ∈ canonicalObject b := by
    intro a b ha hb hab p hp
    obtain ⟨q, hq, hqu, rfl⟩ := mem_canonicalObject.mp hp
    have hvalue : q.2.canonical = (b.get q.1).canonical :=
      (congrArg canonical (JsObject.get_of_mem ha hq)).symm.trans (hab q.1)
    have hbu : (b.get q.1).isUndefined = false := by
      rw [← canonical_isUndefined, ← hvalue, canonical_isUndefined]
      exact hqu
    exact mem_canonicalObject.mpr ⟨_, JsObject.mem_of_get hbu, hbu, by rw [hvalue]⟩
  have hperm : (canonicalObject o).Perm (canonicalObject o') := by
    refine (List.perm_ext_iff_of_nodup ((nodup_canonicalObject h).of_map _)
      ((nodup_canonicalObject h').of_map _)).mpr ?_
    intro p
    exact ⟨hsub h h' hget p, hsub h' h (fun key => (hget key).symm) p⟩
  refine List.Perm.eq_of_pairwise ?_ (sorted_canonicalObject o) (sorted_canonicalObject o') hperm
  intro p q hp hq hpq hqp
  have hkey : p.1 = q.1 := antisymm_of (· ≤ ·) hpq hqp
  have hp' := hsub h h' hget p hp
  have hnodup := nodup_canonicalObject h'
  refine Prod.ext hkey ?_
  rw [← JsObject.get_of_mem hnodup hp', ← JsObject.get_of_mem hnodup hq, hkey]

theorem canonical_of_same {v w : JsValue} (h : Same v w) (hv : v.plain = true)
    (hw : w.plain = true) : v.canonical = w.canonical := by
  induction h with
  | undefined => rfl
  | null => rfl
  | bool b => rfl
  | num n => rfl
  | str s => rfl
  | @arr items items' length same ih =>
      refine congrArg JsValue.arr (List.ext_getElem? ?_)
      intro i
      rw [getElem_canonicalItems, getElem_canonicalItems]
      by_cases hi : i < items.length
      · have ha : items[i]? = some items[i] := List.getElem?_eq_getElem hi
        have hi' : i < items'.length := length ▸ hi
        have hb : items'[i]? = some items'[i] := List.getElem?_eq_getElem hi'
        rw [ha, hb]
        exact congrArg some (ih i _ _ ha hb (plain_element (plain_getElem hv ha))
          (plain_element (plain_getElem hw hb)))
      · rw [List.getElem?_eq_none (Nat.le_of_not_lt hi),
          List.getElem?_eq_none (length ▸ Nat.le_of_not_lt hi)]
  | @obj o o' same ih =>
      refine congrArg JsValue.obj (canonicalObject_eq ((plainFields_iff o).mp hv).1
        ((plainFields_iff o').mp hw).1 ?_)
      intro key
      exact ih key (plain_get hv key) (plain_get hw key)

theorem length_canonicalItems (items : List JsValue) :
    (canonicalItems items).length = items.length := by
  induction items with
  | nil => rfl
  | cons v rest ih => exact congrArg Nat.succ ih

mutual

/-- **A value is the same as its canonical value.** -/
theorem canonical_same : ∀ (v : JsValue), v.plain = true → Same v.canonical v
  | .undefined, _ => .undefined
  | .null, _ => .null
  | .bool b, _ => .bool b
  | .num n, _ => .num n
  | .str s, _ => .str s
  | .arr items, h => by
      refine .arr (length_canonicalItems items) ?_
      intro i c v hc hv
      have hsame := items_same items h i v hv
      rw [getElem_canonicalItems, hv] at hc
      obtain rfl : v.element.canonical = c := Option.some.inj hc
      by_cases hu : v.isUndefined = true
      · have hnull : v.element = .null := if_pos hu
        rw [hnull]
        exact .null
      · have hself : v.element = v := if_neg hu
        have hcanon : v.canonical.element = v.canonical :=
          if_neg (by rwa [canonical_isUndefined])
        rw [hself, hcanon]
        exact hsame
  | .obj fields, h => by
      refine .obj ?_
      intro key
      show Same ((canonicalObject fields).get key) (JsObject.get fields key)
      rw [get_canonicalObject ((plainFields_iff fields).mp h).1]
      cases hu : (JsObject.get fields key).isUndefined with
      | false => exact fields_same fields h _ (JsObject.mem_of_get hu)
      | true =>
          rw [eq_undefined hu]
          exact .undefined

theorem items_same : ∀ (items : List JsValue), plainItems items = true →
    ∀ (i : Nat) (v : JsValue), items[i]? = some v → Same v.canonical v
  | [], _, _, _, hv => nomatch hv
  | w :: rest, h, i, v, hv => by
      rw [plainItems, Bool.and_eq_true] at h
      cases i with
      | zero =>
          obtain rfl := Option.some.inj hv
          exact canonical_same w h.1
      | succ i => exact items_same rest h.2 i v hv

theorem fields_same : ∀ (fields : JsObject), plainFields fields = true →
    ∀ p ∈ fields, Same p.2.canonical p.2
  | [], _, _, hp => nomatch hp
  | (key, v) :: rest, h, p, hp => by
      rw [plainFields, Bool.and_eq_true, Bool.and_eq_true] at h
      rcases List.mem_cons.mp hp with rfl | hp
      · exact canonical_same v h.1.2
      · exact fields_same rest h.2 p hp

end

theorem canonical_eq_iff {v w : JsValue} (hv : v.plain = true) (hw : w.plain = true) :
    v.canonical = w.canonical ↔ Same v w := by
  constructor
  · intro h
    exact (h ▸ (canonical_same v hv).symm).trans (canonical_same w hw)
  · intro h
    exact canonical_of_same h hv hw

/-! ### A canonical value is what its text parses to -/

mutual

theorem plain_wellFormed : ∀ (v : JsValue), v.plain = true → v.wellFormed = true
  | .undefined, _ => rfl
  | .null, _ => rfl
  | .bool _, _ => rfl
  | .num _, _ => rfl
  | .str _, _ => rfl
  | .arr items, h => plainItems_wellFormed items h
  | .obj fields, h =>
      (wellFormedFields_iff fields).mpr
        ⟨((plainFields_iff fields).mp h).1, plainFields_wellFormed fields h⟩

theorem plainItems_wellFormed : ∀ (items : List JsValue), plainItems items = true →
    wellFormedItems items = true
  | [], _ => rfl
  | v :: rest, h => by
      rw [plainItems, Bool.and_eq_true] at h
      rw [wellFormedItems, Bool.and_eq_true]
      exact ⟨plain_wellFormed v h.1, plainItems_wellFormed rest h.2⟩

theorem plainFields_wellFormed : ∀ (fields : JsObject), plainFields fields = true →
    ∀ p ∈ fields, p.2.wellFormed = true
  | [], _, _, hp => nomatch hp
  | (key, v) :: rest, h, p, hp => by
      rw [plainFields, Bool.and_eq_true, Bool.and_eq_true] at h
      rcases List.mem_cons.mp hp with rfl | hp
      · exact plain_wellFormed v h.1.2
      · exact plainFields_wellFormed rest h.2 p hp

end

mutual

theorem canonical_wellFormed : ∀ (v : JsValue), v.plain = true → v.canonical.wellFormed = true
  | .undefined, _ => rfl
  | .null, _ => rfl
  | .bool _, _ => rfl
  | .num _, _ => rfl
  | .str _, _ => rfl
  | .arr items, h => items_wellFormed items h
  | .obj fields, h => by
      refine (wellFormedFields_iff _).mpr
        ⟨nodup_canonicalObject ((plainFields_iff fields).mp h).1, ?_⟩
      intro p hp
      obtain ⟨q, hq, -, rfl⟩ := mem_canonicalObject.mp hp
      exact fields_wellFormed fields h q hq

theorem items_wellFormed : ∀ (items : List JsValue), plainItems items = true →
    wellFormedItems (canonicalItems items) = true
  | [], _ => rfl
  | v :: rest, h => by
      rw [plainItems, Bool.and_eq_true] at h
      rw [canonicalItems, wellFormedItems, Bool.and_eq_true]
      refine ⟨?_, items_wellFormed rest h.2⟩
      split
      · rfl
      · exact canonical_wellFormed v h.1

theorem fields_wellFormed : ∀ (fields : JsObject), plainFields fields = true →
    ∀ p ∈ fields, p.2.canonical.wellFormed = true
  | [], _, _, hp => nomatch hp
  | (key, v) :: rest, h, p, hp => by
      rw [plainFields, Bool.and_eq_true, Bool.and_eq_true] at h
      rcases List.mem_cons.mp hp with rfl | hp
      · exact canonical_wellFormed v h.1.2
      · exact fields_wellFormed rest h.2 p hp

end

theorem fieldsOnWire_eq {o : JsObject} (h : ∀ p ∈ o, p.2.isUndefined = false ∧ p.2.onWire = p.2) :
    fieldsOnWire o = o := by
  induction o with
  | nil => rfl
  | cons p rest ih =>
      rw [List.forall_mem_cons] at h
      rw [fieldsOnWire, h.1.1, if_neg Bool.false_ne_true, h.1.2, ih h.2]

mutual

/-- Nothing of a canonical value is lost on the wire. -/
theorem canonical_onWire : ∀ (v : JsValue), v.plain = true → v.canonical.onWire = v.canonical
  | .undefined, _ => rfl
  | .null, _ => rfl
  | .bool _, _ => rfl
  | .num n, h => if_pos (show n.isFinite = true from h)
  | .str _, _ => rfl
  | .arr items, h => congrArg JsValue.arr (items_onWire items h)
  | .obj fields, h => by
      refine congrArg JsValue.obj (fieldsOnWire_eq ?_)
      intro p hp
      obtain ⟨q, hq, hu, rfl⟩ := mem_canonicalObject.mp hp
      exact ⟨(canonical_isUndefined q.2).trans hu, fields_onWire fields h q hq⟩

theorem items_onWire : ∀ (items : List JsValue), plainItems items = true →
    itemsOnWire (canonicalItems items) = canonicalItems items
  | [], _ => rfl
  | v :: rest, h => by
      rw [plainItems, Bool.and_eq_true] at h
      rw [canonicalItems, itemsOnWire, items_onWire rest h.2]
      by_cases hu : v.isUndefined = true
      · rw [if_pos hu]
        rfl
      · rw [if_neg hu, canonical_isUndefined, if_neg hu, canonical_onWire v h.1]

theorem fields_onWire : ∀ (fields : JsObject), plainFields fields = true →
    ∀ p ∈ fields, p.2.canonical.onWire = p.2.canonical
  | [], _, _, hp => nomatch hp
  | (key, v) :: rest, h, p, hp => by
      rw [plainFields, Bool.and_eq_true, Bool.and_eq_true] at h
      rcases List.mem_cons.mp hp with rfl | hp
      · exact canonical_onWire v h.1.2
      · exact fields_onWire rest h.2 p hp

end

theorem parse_canonical {v : JsValue} (h : v.plain = true) (hu : v.isUndefined = false) :
    parse (jsonText v.canonical) = some v.canonical := by
  rw [parse_jsonText _ (canonical_wellFormed v h), received, canonical_isUndefined, hu,
    if_neg Bool.false_ne_true, canonical_onWire v h]

end JsValue

/-! ### The canonical text -/

open JsValue

theorem sortKeys_map {α β : Type} (f : α → β) (l : List (JsString × α)) :
    sortKeys (l.map fun p => (p.1, f p.2)) = (sortKeys l).map fun p => (p.1, f p.2) := by
  rw [sortKeys, sortKeys]
  exact (List.map_insertionSort (fun p q : JsString × α => p.1 ≤ q.1)
    (fun p q : JsString × β => p.1 ≤ q.1) _ l fun _ _ _ _ => Iff.rfl).symm

theorem memberTexts_ok (o : JsObject) (h : ∀ p ∈ o, p.2.isUndefined = false) :
    memberTexts (o.map fun p => (p.1, .ok (jsonText p.2))) = .ok (fieldTexts o) := by
  induction o with
  | nil => rfl
  | cons p rest ih =>
      rw [List.forall_mem_cons] at h
      rw [List.map_cons, memberTexts, ih h.2, fieldTexts, h.1, if_neg Bool.false_ne_true]
      rfl

mutual

/-- **The canonical text is the JSON text of the canonical value.** -/
theorem jcs_eq : ∀ (v : JsValue), v.plain = true → v.isUndefined = false →
    jcsCanonicalize v = .ok (jsonText v.canonical)
  | .null, _, _ => rfl
  | .bool b, _, _ => by cases b <;> rfl
  | .num n, h, _ => by
      have hfin : n.isFinite = true := h
      rw [jcsCanonicalize, if_pos hfin]
      exact congrArg Except.ok (if_pos hfin).symm
  | .str s, h, _ => by
      rw [plain, Bool.not_eq_true'] at h
      rw [jcsCanonicalize, h, if_neg Bool.false_ne_true]
      rfl
  | .arr items, h, _ => by
      rw [jcsCanonicalize, jcsItems_eq items h]
      rfl
  | .obj fields, h, _ => by
      have hdefined : ∀ p ∈ canonicalObject fields, p.2.isUndefined = false := by
        intro p hp
        obtain ⟨q, -, hq, rfl⟩ := mem_canonicalObject.mp hp
        exact (canonical_isUndefined q.2).trans hq
      rw [jcsCanonicalize, jcsFields_eq fields h, sortKeys_map fun v => Except.ok (jsonText v),
        ← canonicalObject, memberTexts_ok _ hdefined]
      rfl

theorem jcsItems_eq : ∀ (items : List JsValue), plainItems items = true →
    jcsItems items = .ok (itemTexts (canonicalItems items))
  | [], _ => rfl
  | v :: rest, h => by
      rw [plainItems, Bool.and_eq_true] at h
      rw [jcsItems, canonicalItems, itemTexts, jcsItems_eq rest h.2]
      by_cases hu : v.isUndefined = true
      · rw [if_pos hu, if_pos hu]
        rfl
      · rw [if_neg hu, if_neg hu, jcs_eq v h.1 (Bool.eq_false_iff.mpr hu)]
        rfl

theorem jcsFields_eq : ∀ (fields : JsObject), plainFields fields = true →
    jcsFields fields = (canonicalFields fields).map fun p => (p.1, .ok (jsonText p.2))
  | [], _ => rfl
  | (key, v) :: rest, h => by
      rw [plainFields, Bool.and_eq_true, Bool.and_eq_true] at h
      rw [jcsFields, canonicalFields]
      by_cases hu : v.isUndefined = true
      · rw [if_pos hu, if_pos hu]
        exact jcsFields_eq rest h.2
      · rw [if_neg hu, if_neg hu, List.map_cons, ← jcsFields_eq rest h.2,
          jcs_eq v h.1.2 (Bool.eq_false_iff.mpr hu)]

end

/-- Values have one canonical text exactly when they are the same. -/
theorem jcs_eq_iff {v w : JsValue} (hv : v.plain = true) (hw : w.plain = true)
    (hvu : v.isUndefined = false) (hwu : w.isUndefined = false) :
    jcsCanonicalize v = jcsCanonicalize w ↔ Same v w := by
  rw [← canonical_eq_iff hv hw, jcs_eq v hv hvu, jcs_eq w hw hwu]
  constructor
  · intro h
    have hparse := congrArg parse (Except.ok.inj h)
    rw [parse_canonical hv hvu, parse_canonical hw hwu] at hparse
    exact Option.some.inj hparse
  · intro h
    rw [h]

/-! ### Digests -/

theorem plainFields_without {o : JsObject} (h : plainFields o = true) (ks : List JsString) :
    plainFields (o.without ks) = true := by
  rw [plainFields_iff] at h ⊢
  refine ⟨(List.filter_sublist.map Prod.fst).nodup h.1, ?_⟩
  exact fun p hp => h.2 p (List.mem_of_mem_filter hp)

theorem get_without (o : JsObject) (ks : List JsString) (key : JsString) :
    (o.without ks).get key = if key ∈ ks then .undefined else o.get key := by
  induction o with
  | nil => simp [JsObject.without, JsObject.get]
  | cons p rest ih =>
      rw [JsObject.without] at ih ⊢
      by_cases hp : p.1 ∈ ks
      · rw [List.filter_cons_of_neg (by simpa using hp), ih]
        split
        · rfl
        · rename_i hkey
          have hne : p.1 ≠ key := fun hc => hkey (hc ▸ hp)
          rw [JsObject.get_cons, if_neg hne]
      · rw [List.filter_cons_of_pos (by simpa using hp), JsObject.get_cons, JsObject.get_cons, ih]
        by_cases hk : p.1 = key
        · rw [if_pos hk, if_neg (hk ▸ hp), if_pos hk]
        · rw [if_neg hk, if_neg hk]

/-- The messages are the same but for their envelopes. -/
def AgreeButEnvelope (o o' : JsObject) : Prop :=
  ∀ key, key ≠ js "id" → key ≠ js "ts" → Same (o.get key) (o'.get key)

theorem same_without_iff (o o' : JsObject) :
    Same (.obj (o.without [js "id", js "ts"])) (.obj (o'.without [js "id", js "ts"])) ↔
      AgreeButEnvelope o o' := by
  have hmem : ∀ key, key ∈ [js "id", js "ts"] ↔ key = js "id" ∨ key = js "ts" := by simp
  constructor
  · intro h key hid hts
    cases h with
    | obj same =>
        have hkey := same key
        have hnot : key ∉ [js "id", js "ts"] := fun hc => ((hmem key).mp hc).elim hid hts
        rwa [get_without, get_without, if_neg hnot, if_neg hnot] at hkey
  · intro h
    refine .obj ?_
    intro key
    rw [get_without, get_without]
    split
    · exact .undefined
    · rename_i hnot
      rw [hmem, not_or] at hnot
      exact h key hnot.1 hnot.2

/-- What canonical texts and digests are good for, if the hash is `sha`. -/
structure DigestIsCanonical (sha : JsString → JsString) : Prop where
  /-- The text of a value is that of its copy out of JSON text, and parses to the value. -/
  text : ∀ v : JsValue, v.plain = true → v.isUndefined = false →
    ∃ t copy, jcsCanonicalize v = .ok t ∧ parse (jsonText v) = some copy ∧
      jcsCanonicalize copy = .ok t ∧ ∃ u, parse t = some u ∧ Same u v
  /-- Values have one text exactly when they are the same. -/
  injective : ∀ v w : JsValue, v.plain = true → w.plain = true → v.isUndefined = false →
    w.isUndefined = false → (jcsCanonicalize v = jcsCanonicalize w ↔ Same v w)
  /-- A result has the digest of its stored payload, and of the frame the peer gets. -/
  payload : ∀ o : JsObject, plainFields o = true →
    ∃ d copy, resultDigest sha o = .ok d ∧ parseObject (stringifyObject o) = some copy ∧
      resultDigest sha copy = .ok d
  /-- Two results have one digest exactly when they agree on everything but the envelope. -/
  digest : ∀ o o' : JsObject, plainFields o = true → plainFields o' = true →
    (resultDigest sha o = resultDigest sha o' ↔ AgreeButEnvelope o o')

theorem resultDigest_ok (sha : JsString → JsString) {o : JsObject} (h : plainFields o = true) :
    resultDigest sha o = .ok (sha (jsonText (canonical (.obj (o.without [js "id", js "ts"]))))) := by
  rw [resultDigest, jcs_eq (.obj (o.without [js "id", js "ts"])) (plainFields_without h _) rfl]
  rfl

/-- **The result digest is canonical**, as far as the hash is injective. -/
theorem digest_canonical (sha : JsString → JsString) (hsha : Function.Injective sha) :
    DigestIsCanonical sha where
  text := by
    intro v hv hu
    refine ⟨jsonText v.canonical, v.onWire, jcs_eq v hv hu, ?_, jcs_onWire v (jcs_eq v hv hu),
      v.canonical, parse_canonical hv hu, canonical_same v hv⟩
    rw [parse_jsonText v (plain_wellFormed v hv), received, hu, if_neg Bool.false_ne_true]
  injective := fun v w hv hw hvu hwu => jcs_eq_iff hv hw hvu hwu
  payload := by
    intro o ho
    refine ⟨_, o.onWire, resultDigest_ok sha ho, ?_, resultDigest_onWire (resultDigest_ok sha ho)⟩
    exact parseObject_stringifyObject o (plain_wellFormed (.obj o) ho)
  digest := by
    intro o o' ho ho'
    have hplain := plainFields_without ho [js "id", js "ts"]
    have hplain' := plainFields_without ho' [js "id", js "ts"]
    rw [← same_without_iff, ← jcs_eq_iff (v := .obj _) (w := .obj _) hplain hplain' rfl rfl,
      resultDigest, resultDigest, jcs_eq (.obj _) hplain rfl, jcs_eq (.obj _) hplain' rfl]
    constructor
    · intro h
      exact congrArg Except.ok (hsha (Except.ok.inj h))
    · intro h
      rw [h]

/-- The result of the protocol's self-test. -/
def sampleResult : JsObject :=
  [(js "ts", .lit "2099-01-01T00:00:00.000Z"),
    (js "stats", .obj [(js "bytes", .ofNat 4096), (js "event_count", .ofNat 10)]),
    (js "type", .lit "job.result"),
    (js "head_sha", .lit "cafebabe"),
    (js "final_status", .lit "success"),
    (js "attempt_id", .lit "a1"),
    (js "duration_ms", .ofNat 1234),
    (js "exit_code", .ofNat 0),
    (js "lease_id", .lit "l1"),
    (js "job_id", .lit "j1"),
    (js "id", .lit "X")]

/-- A hash that gives the digest the self-test expects. -/
theorem digest_canonical_selftest :
    let text := jsonText (canonical (.obj (sampleResult.without [js "id", js "ts"])))
    let expected := js "e6raIvKksPn724T0swZTHpF429DjIr03kECehRDQH-M"
    let sha := Equiv.swap text expected
    resultDigest sha sampleResult = .ok expected ∧ DigestIsCanonical sha := by
  intro text expected sha
  refine ⟨?_, digest_canonical sha sha.injective⟩
  rw [resultDigest_ok sha (by decide), Equiv.swap_apply_left]

end HuginAgent
