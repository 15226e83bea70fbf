/-
Strings of characters.

A string without a lone surrogate is that of exactly one list of Unicode scalars, and its UTF-8 form
is theirs one after another.
-/
import HuginAgent.Js.Cursor

namespace HuginAgent

/-- The string of some characters. -/
def textOf (cs : List Char) : JsString := cs.flatMap unitsOf

@[simp] theorem textOf_nil : textOf [] = [] := rfl

@[simp] theorem textOf_cons (c : Char) (cs : List Char) :
    textOf (c :: cs) = unitsOf c ++ textOf cs := rfl

@[simp] theorem textOf_append (cs ds : List Char) : textOf (cs ++ ds) = textOf cs ++ textOf ds :=
  List.flatMap_append

theorem char_scalar (c : Char) : c.toNat < 0xD800 ∨ 0xDFFF < c.toNat ∧ c.toNat < 0x110000 :=
  c.valid

theorem unitsOf_plane {c : Char} (h : c.toNat < 0x10000) : unitsOf c = [unit c] := if_pos h

theorem unitsOf_point (c : Char) : unitsOf c = pointUnits c.toNat := rfl

theorem toNat_unit {c : Char} (h : c.toNat < 0x10000) : (unit c).toNat = c.toNat := by
  rw [unit, Nat.toUInt16_eq, UInt16.toNat_ofNat']
  exact Nat.mod_eq_of_lt h

/-- A character of the basic plane is no surrogate. -/
theorem unit_not_surrogate {c : Char} (h : c.toNat < 0x10000) :
    isHighSurrogate (unit c) = false ∧ isLowSurrogate (unit c) = false := by
  have hscalar := char_scalar c
  rw [← Bool.not_eq_true, ← Bool.not_eq_true, isHighSurrogate_iff, isLowSurrogate_iff, toNat_unit h]
  omega

/-- A character of another plane is two surrogates. -/
theorem unitsOf_pair {c : Char} (h : ¬ c.toNat < 0x10000) :
    ∃ high low, unitsOf c = [high, low] ∧ isHighSurrogate high = true ∧
      isLowSurrogate low = true ∧ isHighSurrogate low = false := by
  have hscalar := char_scalar c
  refine ⟨_, _, if_neg h, ?_, ?_, ?_⟩
  · rw [isHighSurrogate_iff, Nat.toUInt16_eq, UInt16.toNat_ofNat']
    omega
  · rw [isLowSurrogate_iff, Nat.toUInt16_eq, UInt16.toNat_ofNat']
    omega
  · rw [← Bool.not_eq_true, isHighSurrogate_iff, Nat.toUInt16_eq, UInt16.toNat_ofNat']
    omega

/-! ### Bytes -/

theorem utf8Encode_unitsOf (c : Char) (t : JsString) :
    utf8Encode (unitsOf c ++ t) = utf8Point c.toNat ++ utf8Encode t := by
  have hscalar := char_scalar c
  by_cases h : c.toNat < 0x10000
  · obtain ⟨hhigh, hlow⟩ := unit_not_surrogate h
    rw [unitsOf_plane h, List.singleton_append, utf8Encode_cons hhigh hlow, toNat_unit h]
  · rw [unitsOf_point, utf8Encode_pair (by omega) (by omega)]

/-- The UTF-8 form of a list of characters. -/
def utf8Chars (cs : List Char) : List UInt8 := cs.flatMap fun c => utf8Point c.toNat

theorem utf8Encode_textOf (cs : List Char) : utf8Encode (textOf cs) = utf8Chars cs := by
  induction cs with
  | nil => rfl
  | cons c cs ih =>
      rw [textOf_cons, utf8Encode_unitsOf, ih]
      rfl

/-! ### Lone surrogates -/

theorem sealed_unitsOf (c : Char) : Sealed (unitsOf c) := by
  intro p rest
  by_cases h : c.toNat < 0x10000
  · obtain ⟨hhigh, hlow⟩ := unit_not_surrogate h
    rw [unitsOf_plane h, List.singleton_append, loneFrom, isLone, hhigh, hlow, Bool.false_and,
      Bool.false_and, Bool.or_false, Bool.false_or]
  · obtain ⟨high, low, hunits, hhigh, hlow, hnot⟩ := unitsOf_pair h
    rw [hunits, List.cons_append, List.singleton_append, loneFrom, loneFrom, hhigh, isLone, isLone,
      hhigh, hlow, hnot, not_low_of_high hhigh]
    simp only [List.head?_cons, Option.any_some, hlow, Bool.not_true, Bool.and_false,
      Bool.false_and, Bool.or_false, Bool.false_or]

theorem textOf_whole (cs : List Char) : hasLoneSurrogate (textOf cs) = false := by
  induction cs with
  | nil => rfl
  | cons c cs ih =>
      rw [textOf_cons, hasLoneSurrogate, sealed_unitsOf c]
      exact ih

theorem exists_unitsOf {n : Nat} (h : n < 0xD800 ∨ 0xDFFF < n ∧ n < 0x110000) :
    ∃ c : Char, unitsOf c = pointUnits n := ⟨Char.ofNatAux n h, rfl⟩

/-- **A string without a lone surrogate is one of characters.** -/
theorem exists_textOf {s : JsString} (h : hasLoneSurrogate s = false) : ∃ cs, s = textOf cs := by
  unfold hasLoneSurrogate at h
  have hone : ∀ {u : UInt16}, isHighSurrogate u = false → isLowSurrogate u = false →
      ∃ c, [u] = unitsOf c := by
    intro u hhigh hlow
    have hlt := u.toNat_lt
    rw [← Bool.not_eq_true, isHighSurrogate_iff] at hhigh
    rw [← Bool.not_eq_true, isLowSurrogate_iff] at hlow
    obtain ⟨c, hc⟩ := exists_unitsOf (n := u.toNat) (by omega)
    refine ⟨c, ?_⟩
    rw [hc, pointUnits, if_pos (by omega), toUInt16_eq rfl]
  induction s using utf8Encode.induct with
  | case1 => exact ⟨[], rfl⟩
  | case2 u =>
      rw [loneFrom, Bool.or_eq_false_iff, isLone, Bool.or_eq_false_iff] at h
      obtain ⟨c, hc⟩ := hone (u := u) (by simpa using h.1.1) (by simpa using h.1.2)
      exact ⟨[c], by rw [hc, textOf_cons, textOf_nil, List.append_nil]⟩
  | case3 u v rest hpair ih =>
      obtain ⟨hhigh, hlow⟩ := (Bool.and_eq_true ..).mp hpair
      have hnot : isHighSurrogate v = false := by
        rw [isLowSurrogate_iff] at hlow
        rw [← Bool.not_eq_true, isHighSurrogate_iff]
        omega
      rw [loneFrom, loneFrom, hnot, Bool.or_eq_false_iff, Bool.or_eq_false_iff] at h
      obtain ⟨cs, rfl⟩ := ih h.2.2
      rw [isHighSurrogate_iff] at hhigh
      rw [isLowSurrogate_iff] at hlow
      have hpoint : pairPoint u v =
          0x10000 + (u.toNat - 0xD800) * 0x400 + (v.toNat - 0xDC00) := rfl
      obtain ⟨c, hc⟩ := exists_unitsOf (n := pairPoint u v) (by omega)
      refine ⟨c :: cs, ?_⟩
      rw [textOf_cons, hc, pointUnits, if_neg (by omega), toUInt16_eq (u := u) (by omega),
        toUInt16_eq (u := v) (by omega)]
      rfl
  | case4 u v rest hpair ih =>
      rw [loneFrom, Bool.or_eq_false_iff, isLone, Bool.or_eq_false_iff] at h
      have hlow : isLowSurrogate u = false := by simpa using h.1.2
      have hhigh : isHighSurrogate u = false := by
        have himp : isHighSurrogate u = true → isLowSurrogate v = true := by simpa using h.1.1
        by_contra hhigh
        rw [Bool.not_eq_false] at hhigh
        exact hpair ((Bool.and_eq_true ..).mpr ⟨hhigh, himp hhigh⟩)
      rw [hhigh] at h
      obtain ⟨cs, hcs⟩ := ih h.2
      obtain ⟨c, hc⟩ := hone hhigh hlow
      exact ⟨c :: cs, by rw [textOf_cons, ← hc, ← hcs, List.singleton_append]⟩

theorem unitsOf_append_inj {c d : Char} {s t : JsString} (h : unitsOf c ++ s = unitsOf d ++ t) :
    c = d ∧ s = t := by
  have hc := char_scalar c
  have hd := char_scalar d
  have hchar : ∀ {m n : Nat}, m < 0x10000 → n < 0x10000 → m.toUInt16 = n.toUInt16 → m = n := by
    intro m n hm hn heq
    have heq := congrArg UInt16.toNat heq
    rw [Nat.toUInt16_eq, Nat.toUInt16_eq, UInt16.toNat_ofNat', UInt16.toNat_ofNat'] at heq
    omega
  by_cases hcp : c.toNat < 0x10000 <;> by_cases hdp : d.toNat < 0x10000
  · rw [unitsOf_plane hcp, unitsOf_plane hdp] at h
    obtain ⟨hunit, hrest⟩ := List.cons.inj h
    exact ⟨Char.toNat_inj.mp (hchar hcp hdp hunit), hrest⟩
  · obtain ⟨high, low, hunits, hhigh, -⟩ := unitsOf_pair hdp
    rw [unitsOf_plane hcp, hunits] at h
    rw [← (List.cons.inj h).1, (unit_not_surrogate hcp).1] at hhigh
    exact absurd hhigh Bool.false_ne_true
  · obtain ⟨high, low, hunits, hhigh, -⟩ := unitsOf_pair hcp
    rw [unitsOf_plane hdp, hunits] at h
    rw [(List.cons.inj h).1, (unit_not_surrogate hdp).1] at hhigh
    exact absurd hhigh Bool.false_ne_true
  · rw [unitsOf, unitsOf, if_neg hcp, if_neg hdp] at h
    obtain ⟨hhigh, h⟩ := List.cons.inj h
    obtain ⟨hlow, h⟩ := List.cons.inj h
    have hhigh := hchar (by omega) (by omega) hhigh
    have hlow := hchar (by omega) (by omega) hlow
    exact ⟨Char.toNat_inj.mp (by omega), h⟩

theorem textOf_injective : Function.Injective textOf := by
  intro cs
  induction cs with
  | nil =>
      intro ds h
      cases ds with
      | nil => rfl
      | cons d ds =>
          rw [textOf_nil, textOf_cons, unitsOf] at h
          split at h <;> exact nomatch h
  | cons c cs ih =>
      intro ds h
      cases ds with
      | nil =>
          rw [textOf_nil, textOf_cons, unitsOf] at h
          split at h <;> exact nomatch h
      | cons d ds =>
          obtain ⟨rfl, hrest⟩ := unitsOf_append_inj h
          rw [ih hrest]

end HuginAgent
