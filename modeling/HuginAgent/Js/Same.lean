/-
When two JSON values are the same.

`Same` is equality as a receiver sees it: the order of an object's properties does not
count, a property that is `undefined` is as good as none, and an element that is
`undefined` is a `null`.
-/
import HuginAgent.Js.Value

namespace HuginAgent

/-- An element of an array, as `JSON.stringify` takes it. -/
def JsValue.element (v : JsValue) : JsValue := if v.isUndefined then .null else v

/-- The values are the same to a receiver. -/
inductive Same : JsValue → JsValue → Prop
  | undefined : Same .undefined .undefined
  | null : Same .null .null
  | bool (b : Bool) : Same (.bool b) (.bool b)
  | num (n : JsNumber) : Same (.num n) (.num n)
  | str (s : JsString) : Same (.str s) (.str s)
  | arr {items items' : List JsValue} (length : items.length = items'.length)
      (same : ∀ (i : Nat) (v w : JsValue), items[i]? = some v → items'[i]? = some w → Same v.element w.element) :
      Same (.arr items) (.arr items')
  | obj {o o' : JsObject} (same : ∀ key, Same (o.get key) (o'.get key)) :
      Same (.obj o) (.obj o')

theorem Same.symm {v w : JsValue} (h : Same v w) : Same w v := by
  induction h with
  | undefined => exact .undefined
  | null => exact .null
  | bool b => exact .bool b
  | num n => exact .num n
  | str s => exact .str s
  | arr length _ ih => exact .arr length.symm fun i v w hv hw => ih i w v hw hv
  | obj _ ih => exact .obj ih

theorem Same.trans {u v w : JsValue} (h : Same u v) (h' : Same v w) : Same u w := by
  induction h generalizing w with
  | undefined => exact h'
  | null => exact h'
  | bool b => exact h'
  | num n => exact h'
  | str s => exact h'
  | @arr items items' length _ ih =>
      cases h' with
      | @arr _ items'' length' same' =>
          refine .arr (length.trans length') ?_
          intro i a c ha hc
          obtain ⟨hi, -⟩ := List.getElem?_eq_some_iff.mp ha
          have hb : items'[i]? = some items'[i] := List.getElem?_eq_getElem _
          exact ih i a _ ha hb (same' i _ c hb hc)
  | obj _ ih =>
      cases h' with
      | obj same' => exact .obj fun key => ih key (same' key)

end HuginAgent
