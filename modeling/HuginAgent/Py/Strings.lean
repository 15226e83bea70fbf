/-
Python strings.

A `str` is a finite sequence of code points, and a surrogate is one like any other.  The same text
is another sequence in JavaScript: `units` writes a code point of a higher plane as two units.
The texts that both sides accept are ASCII, where the two are the same up to the type
(`ofUnits`).

What depends on the tables of Unicode is a parameter: which code points are decimal digits, and
how a text is put into lower case.  Both are known on ASCII.
-/
import HuginAgent.Js.Url
import HuginAgent.Kit.Grammar

namespace HuginAgent

abbrev CodePoint := Fin 0x110000

abbrev PyString := List CodePoint

/-- The code point of a unit. -/
def ofUnit (u : UInt16) : CodePoint := ⟨u.toNat, Nat.lt_trans u.toNat_lt (by decide)⟩

def ofUnits (t : JsString) : PyString := t.map ofUnit

/-- The same text in JavaScript. -/
def units (s : PyString) : JsString := s.flatMap fun p => pointUnits p.val

/-- A string literal of the source. -/
def py (s : String) : PyString := ofUnits (js s)

/-- The code point of an ASCII character. -/
def point (c : Char) : CodePoint := ofUnit (unit c)

theorem ofUnit_injective : Function.Injective ofUnit := by
  intro u v h
  exact UInt16.toNat_inj.mp (Fin.mk.inj h)

theorem ofUnits_injective : Function.Injective ofUnits := List.map_injective_iff.mpr ofUnit_injective

theorem pointUnits_ofUnit (u : UInt16) : pointUnits (ofUnit u).val = [u] := by
  have hlt : (ofUnit u).val < 0x10000 := u.toNat_lt
  rw [pointUnits, if_pos hlt]
  exact congrArg (· :: []) UInt16.ofNat_toNat

@[simp] theorem units_ofUnits (t : JsString) : units (ofUnits t) = t := by
  induction t with
  | nil => rfl
  | cons u t ih =>
      rw [units, ofUnits, List.map_cons, List.flatMap_cons, pointUnits_ofUnit]
      exact congrArg (u :: ·) ih

/-- `s.isascii()`. -/
def PyString.isAscii (s : PyString) : Bool := s.all fun p => p.val < 128

theorem isAscii_ofUnits {t : JsString} (h : ∀ u ∈ t, HuginAgent.isAscii u = true) :
    PyString.isAscii (ofUnits t) = true := by
  rw [PyString.isAscii, ofUnits, List.all_map, List.all_eq_true]
  intro u hu
  exact decide_eq_true (isAscii_iff.mp (h u hu))

/-- An ASCII text is a text of units. -/
theorem exists_units_of_isAscii {s : PyString} (h : PyString.isAscii s = true) :
    ∃ t, (∀ u ∈ t, HuginAgent.isAscii u = true) ∧ s = ofUnits t := by
  induction s with
  | nil => exact ⟨[], nofun, rfl⟩
  | cons p s ih =>
      simp only [PyString.isAscii, List.all_cons, Bool.and_eq_true, decide_eq_true_eq] at h
      obtain ⟨t, ht, rfl⟩ := ih h.2
      have hval : p.val.toUInt16.toNat = p.val := by
        rw [Nat.toUInt16_eq, UInt16.toNat_ofNat']
        exact Nat.mod_eq_of_lt (Nat.lt_trans h.1 (by decide))
      refine ⟨p.val.toUInt16 :: t, List.forall_mem_cons.mpr ⟨?_, ht⟩, ?_⟩
      · rw [isAscii_iff, hval]
        exact h.1
      · exact congrArg (· :: ofUnits t) (Fin.ext hval.symm)

/-- **A text that is ASCII in JavaScript is the same text in Python.** -/
theorem eq_ofUnits_of_units {s : PyString} (h : ∀ u ∈ units s, HuginAgent.isAscii u = true) :
    s = ofUnits (units s) := by
  induction s with
  | nil => rfl
  | cons p s ih =>
      rw [units, List.flatMap_cons, List.forall_mem_append] at h
      have hone : p.val < 0x10000 := by
        by_contra hge
        rw [pointUnits, if_neg hge] at h
        have hhigh := isAscii_iff.mp (List.forall_mem_cons.mp h.1).1
        rw [Nat.toUInt16_eq, UInt16.toNat_ofNat'] at hhigh
        have hp := p.isLt
        omega
      have hpoint : pointUnits p.val = [p.val.toUInt16] := if_pos hone
      have hunit : ofUnit p.val.toUInt16 = p := by
        refine Fin.ext ?_
        show p.val.toUInt16.toNat = p.val
        rw [Nat.toUInt16_eq, UInt16.toNat_ofNat']
        exact Nat.mod_eq_of_lt hone
      rw [units, List.flatMap_cons, hpoint, List.singleton_append, ofUnits, List.map_cons, hunit]
      exact congrArg (p :: ·) (ih h.2)

/-! ### Unicode -/

def isSurrogate (p : CodePoint) : Bool := 0xD800 ≤ p.val && p.val ≤ 0xDFFF

/-- What Python knows of characters. -/
structure PyUnicode where
  /-- `\d` of a regular expression. -/
  isDecimal : CodePoint → Bool
  /-- `s.lower()`. -/
  lower : PyString → PyString
  isDecimal_ascii : ∀ {u : UInt16}, isAscii u = true → isDecimal (ofUnit u) = isDigit u
  isDecimal_scalar : ∀ {p : CodePoint}, isDecimal p = true → isSurrogate p = false
  lower_ascii : ∀ {t : JsString}, (∀ u ∈ t, isAscii u = true) →
    lower (ofUnits t) = ofUnits (toLowerCase t)

/-- A class of ASCII characters. -/
def inClass (p : UInt16 → Bool) (c : CodePoint) : Bool := c.val < 128 && p c.val.toUInt16

theorem inClass_ofUnit {p : UInt16 → Bool} {u : UInt16} (h : isAscii u = true) :
    inClass p (ofUnit u) = p u := by
  have hlt : (ofUnit u).val < 128 := isAscii_iff.mp h
  have hval : (ofUnit u).val.toUInt16 = u := UInt16.ofNat_toNat
  rw [inClass, hval, decide_eq_true hlt, Bool.true_and]

theorem all_inClass {p : UInt16 → Bool} {t : JsString} (h : ∀ u ∈ t, isAscii u = true) :
    (ofUnits t).all (inClass p) = t.all p := by
  induction t with
  | nil => rfl
  | cons u t ih =>
      obtain ⟨hu, ht⟩ := List.forall_mem_cons.mp h
      rw [ofUnits, List.map_cons, List.all_cons, List.all_cons, inClass_ofUnit hu]
      exact congrArg _ (ih ht)

/-- What is in a class is ASCII. -/
theorem isAscii_of_inClass {p : UInt16 → Bool} {s : PyString} (h : s.all (inClass p) = true) :
    PyString.isAscii s = true := by
  rw [List.all_eq_true] at h
  rw [PyString.isAscii, List.all_eq_true]
  intro c hc
  have hclass := h c hc
  rw [inClass, Bool.and_eq_true] at hclass
  exact hclass.1

/-! ### Bytes -/

/-- `s.encode("utf-8")`; it throws on a surrogate. -/
def encodeUtf8 (s : PyString) : Option (List UInt8) :=
  if s.any isSurrogate then none else some (s.flatMap fun p => utf8Point p.val)

/-- **Both sides write a text as the same bytes.** -/
theorem encodeUtf8_eq {s : PyString} (h : ∀ p ∈ s, isSurrogate p = false) :
    encodeUtf8 s = some (utf8Encode (units s)) := by
  have hnone : ¬ s.any isSurrogate = true := by
    rw [List.any_eq_true]
    rintro ⟨p, hp, hsurrogate⟩
    rw [h p hp] at hsurrogate
    exact Bool.false_ne_true hsurrogate
  rw [encodeUtf8, if_neg hnone]
  refine congrArg some ?_
  clear hnone
  induction s with
  | nil => rfl
  | cons p s ih =>
      obtain ⟨hp, hs⟩ := List.forall_mem_cons.mp h
      have hunits : units (p :: s) = pointUnits p.val ++ units s := List.flatMap_cons
      rw [List.flatMap_cons, ih hs, hunits]
      by_cases hplane : p.val < 0x10000
      · have hval : p.val.toUInt16.toNat = p.val := by
          rw [Nat.toUInt16_eq, UInt16.toNat_ofNat']
          exact Nat.mod_eq_of_lt hplane
        have hunit : isHighSurrogate p.val.toUInt16 = false ∧ isLowSurrogate p.val.toUInt16 = false := by
          simp only [isSurrogate, Bool.and_eq_false_iff, decide_eq_false_iff_not] at hp
          rw [← Bool.not_eq_true, ← Bool.not_eq_true, isHighSurrogate_iff, isLowSurrogate_iff, hval]
          omega
        rw [pointUnits, if_pos hplane, List.singleton_append, utf8Encode_cons hunit.1 hunit.2, hval]
      · exact (utf8Encode_pair (by omega) p.isLt _).symm

theorem isSurrogate_ofUnits {t : JsString} (h : ∀ u ∈ t, isAscii u = true) :
    ∀ p ∈ ofUnits t, isSurrogate p = false := by
  intro p hp
  obtain ⟨u, hu, rfl⟩ := List.mem_map.mp hp
  have hlt : (ofUnit u).val < 128 := isAscii_iff.mp (h u hu)
  rw [isSurrogate, Bool.and_eq_false_iff, decide_eq_false_iff_not]
  exact Or.inl (by omega)

end HuginAgent
