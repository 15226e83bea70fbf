/-
How many values a JSON text can hold.

Every value takes at least one unit of the text it is read from, so no array in it is longer
than the text (`parse_nodes`).  It is the only bound there is on what a file of some size
makes the daemon count.
-/
import HuginAgent.Js.Strings

namespace HuginAgent

namespace JsValue

mutual

/-- The number of values inside a value, with itself. -/
def nodes : JsValue → Nat
  | .arr items => 1 + nodesOfItems items
  | .obj fields => 1 + nodesOfFields fields
  | _ => 1

def nodesOfItems : List JsValue → Nat
  | [] => 0
  | v :: rest => v.nodes + nodesOfItems rest

def nodesOfFields : JsObject → Nat
  | [] => 0
  | p :: rest => p.2.nodes + nodesOfFields rest

end

theorem one_le_nodes (v : JsValue) : 1 ≤ v.nodes := by
  cases v with
  | arr items => exact Nat.le_add_right 1 _
  | obj fields => exact Nat.le_add_right 1 _
  | _ => exact Nat.le_refl 1

theorem length_le_nodesOfItems (items : List JsValue) : items.length ≤ nodesOfItems items := by
  induction items with
  | nil => exact Nat.le_refl 0
  | cons v rest ih =>
      have hv := v.one_le_nodes
      rw [nodesOfItems, List.length_cons]
      omega

theorem nodesOfFields_eq_sum (o : JsObject) : nodesOfFields o = (o.map fun p => p.2.nodes).sum := by
  induction o with
  | nil => rfl
  | cons p rest ih => rw [nodesOfFields, ih, List.map_cons, List.sum_cons]

theorem nodes_get_le (o : JsObject) (key : JsString) :
    (JsObject.get o key).nodes ≤ 1 + nodesOfFields o := by
  induction o with
  | nil => exact Nat.le_refl 1
  | cons p rest ih =>
      rw [nodesOfFields]
      by_cases hp : p.1 = key
      · have hget : JsObject.get (p :: rest) key = p.2 := by simp [JsObject.get, hp]
        rw [hget]
        omega
      · have hget : JsObject.get (p :: rest) key = JsObject.get rest key := by
          simp [JsObject.get, hp]
        rw [hget]
        omega

theorem nodesOfFields_set_le (o : JsObject) (key : JsString) (v : JsValue) :
    nodesOfFields (o.set key v) ≤ nodesOfFields o + v.nodes := by
  induction o with
  | nil => exact Nat.le_of_eq (Nat.add_comm _ _)
  | cons p rest ih =>
      by_cases hp : p.1 = key
      · rw [JsObject.set, if_pos hp, nodesOfFields, nodesOfFields]
        dsimp only
        omega
      · rw [JsObject.set, if_neg hp, nodesOfFields, nodesOfFields]
        omega

/-! ### What `JSON.parse` makes of the values -/

theorem propertyOrder_perm (o : JsObject) : (propertyOrder o).Perm o := by
  refine List.Perm.trans ?_ (List.filter_append_perm (fun p => isIndexKey p.1) o)
  exact (List.perm_insertionSort _ _).append_right _

mutual

theorem nodes_loaded (number : Decimal → JsNumber) : ∀ v : JsValue, (v.loaded number).nodes = v.nodes
  | .num n => by cases n <;> rfl
  | .arr items => congrArg (1 + ·) (nodes_loadedItems number items)
  | .obj fields => by
      rw [loaded, nodes, nodes, nodesOfFields_eq_sum,
        ((propertyOrder_perm _).map _).sum_eq, ← nodesOfFields_eq_sum, nodes_loadedFields]
  | .undefined => rfl
  | .null => rfl
  | .bool _ => rfl
  | .str _ => rfl

theorem nodes_loadedItems (number : Decimal → JsNumber) :
    ∀ items : List JsValue, nodesOfItems (loadedItems number items) = nodesOfItems items
  | [] => rfl
  | v :: rest => by
      rw [loadedItems, nodesOfItems, nodesOfItems, nodes_loaded number v,
        nodes_loadedItems number rest]

theorem nodes_loadedFields (number : Decimal → JsNumber) :
    ∀ o : JsObject, nodesOfFields (loadedFields number o) = nodesOfFields o
  | [] => rfl
  | p :: rest => by
      rw [loadedFields, nodesOfFields, nodesOfFields, nodes_loaded number p.2,
        nodes_loadedFields number rest]

end

end JsValue

/-! ### What the parser takes off -/

theorem skipSpace_length_le (s : JsString) : (skipSpace s).length ≤ s.length :=
  (List.dropWhile_suffix isSpace).length_le

theorem afterPrefix_length {p s r : JsString} (h : afterPrefix p s = some r) :
    p.length + r.length = s.length := by
  induction p generalizing s with
  | nil =>
      obtain rfl := Option.some.inj h
      exact Nat.zero_add _
  | cons c cs ih =>
      cases s with
      | nil => exact nomatch h
      | cons u rest =>
          rw [afterPrefix] at h
          split at h
          · have hrest := ih h
            rw [List.length_cons, List.length_cons]
            omega
          · exact nomatch h

theorem parseString_length (s : JsString) : ∀ {t r : JsString}, parseString s = some (t, r) →
    r.length < s.length := by
  fun_induction parseString s with
  | case1 => exact fun h => nomatch h
  | case2 rest =>
      intro t r h
      obtain ⟨rfl, rfl⟩ := Prod.mk.inj (Option.some.inj h)
      exact Nat.lt_succ_self _
  | case3 => exact fun h => nomatch h
  | case4 a b c d rest _ ih =>
      intro t r h
      simp only [Option.bind_eq_bind, Option.bind_eq_some_iff, Option.pure_def] at h
      obtain ⟨u, -, ⟨s, rest'⟩, hs, hr⟩ := h
      obtain ⟨rfl, rfl⟩ := Prod.mk.inj (Option.some.inj hr)
      have hlt := ih hs
      simp only [List.length_cons]
      omega
  | case5 => exact fun h => nomatch h
  | case6 e rest _ _ ih =>
      intro t r h
      simp only [Option.bind_eq_bind, Option.bind_eq_some_iff, Option.pure_def] at h
      obtain ⟨u, -, ⟨s, rest'⟩, hs, hr⟩ := h
      obtain ⟨rfl, rfl⟩ := Prod.mk.inj (Option.some.inj hr)
      have hlt := ih hs
      simp only [List.length_cons]
      omega
  | case7 => exact fun h => nomatch h
  | case8 u rest _ _ _ ih =>
      intro t r h
      simp only [Option.bind_eq_bind, Option.bind_eq_some_iff, Option.pure_def] at h
      obtain ⟨⟨s, rest'⟩, hs, hr⟩ := h
      obtain ⟨rfl, rfl⟩ := Prod.mk.inj (Option.some.inj hr)
      have hlt := ih hs
      simp only [List.length_cons]
      omega

theorem parseFraction_length {s f r : JsString} (h : parseFraction s = some (f, r)) :
    r.length ≤ s.length := by
  unfold parseFraction at h
  split at h
  · obtain ⟨rfl, rfl⟩ := Prod.mk.inj (Option.some.inj h)
    exact Nat.le_refl _
  · split at h
    · split at h
      · exact nomatch h
      · obtain ⟨rfl, rfl⟩ := Prod.mk.inj (Option.some.inj h)
        exact Nat.le_succ_of_le (List.dropWhile_suffix isDigit).length_le
    · obtain ⟨rfl, rfl⟩ := Prod.mk.inj (Option.some.inj h)
      exact Nat.le_refl _

theorem parseSign_length (s : JsString) : (parseSign s).2.length ≤ s.length := by
  unfold parseSign
  split
  · exact Nat.le_refl _
  · split
    · exact Nat.le_succ _
    · split
      · exact Nat.le_succ _
      · exact Nat.le_refl _

theorem parseExponent_length {s r : JsString} {e : Int} (h : parseExponent s = some (e, r)) :
    r.length ≤ s.length := by
  unfold parseExponent at h
  split at h
  · obtain ⟨-, rfl⟩ := Prod.mk.inj (Option.some.inj h)
    exact Nat.le_refl _
  · rename_i u rest
    split at h
    · dsimp only at h
      split at h
      · exact nomatch h
      · obtain ⟨-, rfl⟩ := Prod.mk.inj (Option.some.inj h)
        have hsign := parseSign_length rest
        have hdrop := (List.dropWhile_suffix (l := (parseSign rest).2) isDigit).length_le
        rw [List.length_cons]
        omega
    · obtain ⟨-, rfl⟩ := Prod.mk.inj (Option.some.inj h)
      exact Nat.le_refl _

theorem parseUnsigned_length {neg : Bool} {s r : JsString} {n : JsNumber}
    (h : parseUnsigned neg s = some (n, r)) : r.length < s.length := by
  unfold parseUnsigned at h
  dsimp only at h
  split at h
  · exact nomatch h
  · rename_i hip
    rw [not_or] at hip
    simp only [Option.bind_eq_bind, Option.bind_eq_some_iff, Option.pure_def] at h
    obtain ⟨⟨fp, s1⟩, hf, ⟨e, s2⟩, he, hr⟩ := h
    obtain ⟨-, rfl⟩ := Prod.mk.inj (Option.some.inj hr)
    have hfrac := parseFraction_length hf
    have hexp := parseExponent_length he
    have hpos : 0 < (s.takeWhile isDigit).length := List.length_pos_iff.mpr hip.1
    have hsplit := congrArg List.length (List.takeWhile_append_dropWhile (p := isDigit) (l := s))
    rw [List.length_append] at hsplit
    dsimp only at hexp ⊢
    omega

theorem parseNumber_length {s r : JsString} {n : JsNumber} (h : parseNumber s = some (n, r)) :
    r.length < s.length := by
  unfold parseNumber at h
  split at h
  · exact nomatch h
  · split at h
    · exact Nat.lt_succ_of_lt (parseUnsigned_length h)
    · exact parseUnsigned_length h

theorem parseLiteral_length {p s r : JsString} {v w : JsValue} (hp : 1 ≤ p.length)
    (hw : w.nodes = 1) (h : ((afterPrefix p s).map fun rest => (w, rest)) = some (v, r)) :
    v.nodes + r.length ≤ s.length := by
  obtain ⟨rest, hrest, heq⟩ := Option.map_eq_some_iff.mp h
  obtain ⟨rfl, rfl⟩ := Prod.mk.inj heq
  have hlength := afterPrefix_length hrest
  omega

/-- What one more unit of fuel gives, for each of the three. -/
structure TakesUnits (fuel : Nat) : Prop where
  value : ∀ s v r, parseValue fuel s = some (v, r) → v.nodes + r.length ≤ s.length
  items : ∀ s items r, parseItems fuel s = some (items, r) →
    JsValue.nodesOfItems items + r.length < s.length
  members : ∀ acc s fields r, parseMembers fuel acc s = some (fields, r) →
    JsValue.nodesOfFields fields + r.length < JsValue.nodesOfFields acc + s.length

theorem parseValue_takes {fuel : Nat} (ih : TakesUnits fuel) {s r : JsString} {v : JsValue}
    (h : parseValue (fuel + 1) s = some (v, r)) : v.nodes + r.length ≤ s.length := by
  have hskip := skipSpace_length_le s
  rw [parseValue] at h
  split at h
  · exact nomatch h
  · rename_i u rest hs
    rw [hs] at hskip
    refine Nat.le_trans ?_ hskip
    split at h
    · simp only [Option.bind_eq_bind, Option.bind_eq_some_iff, Option.pure_def] at h
      obtain ⟨⟨t, r'⟩, ht, hr⟩ := h
      obtain ⟨rfl, rfl⟩ := Prod.mk.inj (Option.some.inj hr)
      have hlt := parseString_length rest ht
      show 1 + r'.length ≤ rest.length + 1
      omega
    split at h
    · have hrest := skipSpace_length_le rest
      split at h
      · exact nomatch h
      · rename_i w after hafter
        rw [hafter, List.length_cons] at hrest
        split at h
        · obtain ⟨rfl, rfl⟩ := Prod.mk.inj (Option.some.inj h)
          rw [JsValue.nodes, JsValue.nodesOfItems, List.length_cons]
          omega
        · simp only [Option.bind_eq_bind, Option.bind_eq_some_iff, Option.pure_def] at h
          obtain ⟨⟨items, r'⟩, hitems, hr⟩ := h
          obtain ⟨rfl, rfl⟩ := Prod.mk.inj (Option.some.inj hr)
          have hlt := ih.items _ _ _ hitems
          rw [JsValue.nodes, List.length_cons]
          dsimp only
          omega
    split at h
    · have hrest := skipSpace_length_le rest
      split at h
      · exact nomatch h
      · rename_i w after hafter
        rw [hafter, List.length_cons] at hrest
        split at h
        · obtain ⟨rfl, rfl⟩ := Prod.mk.inj (Option.some.inj h)
          rw [JsValue.nodes, JsValue.nodesOfFields, List.length_cons]
          omega
        · simp only [Option.bind_eq_bind, Option.bind_eq_some_iff, Option.pure_def] at h
          obtain ⟨⟨fields, r'⟩, hfields, hr⟩ := h
          obtain ⟨rfl, rfl⟩ := Prod.mk.inj (Option.some.inj hr)
          have hlt := ih.members _ _ _ _ hfields
          rw [JsValue.nodesOfFields] at hlt
          rw [JsValue.nodes, List.length_cons]
          dsimp only
          omega
    split at h
    · exact parseLiteral_length (by decide) rfl h
    split at h
    · exact parseLiteral_length (by decide) rfl h
    split at h
    · exact parseLiteral_length (by decide) rfl h
    · obtain ⟨⟨n, r'⟩, hn, hr⟩ := Option.map_eq_some_iff.mp h
      obtain ⟨rfl, rfl⟩ := Prod.mk.inj hr
      have hlt := parseNumber_length hn
      show 1 + r'.length ≤ (u :: rest).length
      omega

theorem parseItems_takes {fuel : Nat} (ih : TakesUnits fuel) {s r : JsString}
    {items : List JsValue} (h : parseItems (fuel + 1) s = some (items, r)) :
    JsValue.nodesOfItems items + r.length < s.length := by
  rw [parseItems] at h
  simp only [Option.bind_eq_bind, Option.bind_eq_some_iff, Option.pure_def] at h
  obtain ⟨⟨v, rest⟩, hv, h⟩ := h
  have hvalue := ih.value _ _ _ hv
  have hskip := skipSpace_length_le rest
  dsimp only at h
  split at h
  · exact nomatch h
  · rename_i u after hafter
    rw [hafter, List.length_cons] at hskip
    split at h
    · simp only [Option.bind_eq_some_iff] at h
      obtain ⟨⟨items', r'⟩, hitems, hr⟩ := h
      obtain ⟨rfl, rfl⟩ := Prod.mk.inj (Option.some.inj hr)
      have hlt := ih.items _ _ _ hitems
      rw [JsValue.nodesOfItems]
      dsimp only
      omega
    split at h
    · obtain ⟨rfl, rfl⟩ := Prod.mk.inj (Option.some.inj h)
      rw [JsValue.nodesOfItems, JsValue.nodesOfItems]
      omega
    · exact nomatch h

theorem parseMembers_takes {fuel : Nat} (ih : TakesUnits fuel) {acc fields : JsObject}
    {s r : JsString} (h : parseMembers (fuel + 1) acc s = some (fields, r)) :
    JsValue.nodesOfFields fields + r.length < JsValue.nodesOfFields acc + s.length := by
  have hskip := skipSpace_length_le s
  rw [parseMembers] at h
  split at h
  · exact nomatch h
  · rename_i q rest hq
    rw [hq, List.length_cons] at hskip
    split at h
    · simp only [Option.bind_eq_bind, Option.bind_eq_some_iff] at h
      obtain ⟨⟨key, rest1⟩, hkey, h⟩ := h
      have hstring := parseString_length rest hkey
      have hskip1 := skipSpace_length_le rest1
      dsimp only at h
      split at h
      · exact nomatch h
      · rename_i c rest2 hc
        rw [hc, List.length_cons] at hskip1
        split at h
        · simp only [Option.bind_eq_some_iff] at h
          obtain ⟨⟨v, rest3⟩, hv, h⟩ := h
          have hvalue := ih.value _ _ _ hv
          have hskip2 := skipSpace_length_le rest3
          have hset := JsValue.nodesOfFields_set_le acc key v
          dsimp only at h
          split at h
          · exact nomatch h
          · rename_i u rest4 hu
            rw [hu, List.length_cons] at hskip2
            split at h
            · have hlt := ih.members _ _ _ _ h
              omega
            split at h
            · obtain ⟨rfl, rfl⟩ := Prod.mk.inj (Option.some.inj h)
              omega
            · exact nomatch h
        · exact nomatch h
    · exact nomatch h

theorem takesUnits (fuel : Nat) : TakesUnits fuel := by
  induction fuel with
  | zero => exact ⟨by simp [parseValue], by simp [parseItems], by simp [parseMembers]⟩
  | succ fuel ih =>
      exact ⟨fun _ _ _ h => parseValue_takes ih h, fun _ _ _ h => parseItems_takes ih h,
        fun _ _ _ _ h => parseMembers_takes ih h⟩

/-- **Every value takes a unit of the text.** -/
theorem parse_nodes {s : JsString} {v : JsValue} (h : parse s = some v) : v.nodes ≤ s.length := by
  unfold parse at h
  simp only [Option.bind_eq_bind, Option.bind_eq_some_iff] at h
  obtain ⟨⟨w, rest⟩, hw, h⟩ := h
  split at h
  · obtain rfl := Option.some.inj h
    exact Nat.le_trans (Nat.le_add_right _ _) ((takesUnits s.length).value _ _ _ hw)
  · exact nomatch h

end HuginAgent
