/-
What a text can take at most.

Escaping makes at most six bytes of a unit, and an integer below `10 ^ 21` is printed with
its digits.
-/
import HuginAgent.Js.OneLine
import HuginAgent.Js.Size
import HuginAgent.Js.Cursor
import HuginAgent.Js.Date

namespace HuginAgent

/-! ### Strings -/

theorem utf8LengthFrom_ascii {e : JsString} (hne : e ≠ []) (h : ∀ u ∈ e, isAscii u = true)
    (p : Bool) (rest : JsString) :
    utf8LengthFrom p (e ++ rest) = e.length + utf8LengthFrom false rest := by
  induction e generalizing p with
  | nil => exact absurd rfl hne
  | cons u e ih =>
      have hu := h u List.mem_cons_self
      have hlt : u < 0x80 := of_decide_eq_true hu
      rw [List.cons_append, utf8LengthFrom, utf8LengthAt, if_pos hlt, not_high_of_ascii hu,
        List.length_cons]
      by_cases he : e = []
      · rw [he, List.nil_append, List.length_nil]
      · rw [ih he (fun v hv => h v (List.mem_cons_of_mem _ hv))]
        omega

/-- An escape is short and plain; a unit that needs none stays. -/
theorem quoteUnit_short (p : Bool) (u : UInt16) (rest : JsString) :
    (quoteUnit p u rest ≠ [] ∧ (∀ v ∈ quoteUnit p u rest, isAscii v = true) ∧
      (quoteUnit p u rest).length ≤ 6) ∨ quoteUnit p u rest = [u] := by
  have hescape : ∀ c : Char, isAscii (unit c) = true →
      escape c ≠ [] ∧ (∀ v ∈ escape c, isAscii v = true) ∧ (escape c).length ≤ 6 := by
    intro c hc
    refine ⟨List.cons_ne_nil _ _, ?_, (by decide : 2 ≤ 6)⟩
    exact List.forall_mem_cons.mpr ⟨by decide, List.forall_mem_singleton.mpr hc⟩
  unfold quoteUnit
  split
  · exact Or.inl (hescape _ (by decide))
  split
  · exact Or.inl (hescape _ (by decide))
  split
  · exact Or.inl (hescape _ (by decide))
  split
  · exact Or.inl (hescape _ (by decide))
  split
  · exact Or.inl (hescape _ (by decide))
  split
  · exact Or.inl (hescape _ (by decide))
  split
  · exact Or.inl (hescape _ (by decide))
  split
  · exact Or.inl ⟨List.cons_ne_nil _ _, unicodeEscape_ascii u, Nat.le_refl 6⟩
  · exact Or.inr rfl

theorem utf8LengthAt_le (p : Bool) (u : UInt16) (rest : JsString) : utf8LengthAt p u rest ≤ 4 := by
  unfold utf8LengthAt
  split
  · omega
  split
  · omega
  split
  · omega
  split <;> omega

theorem utf8LengthFrom_quoteFrom_le (s : JsString) (p q : Bool) :
    utf8LengthFrom q (quoteFrom p s) ≤ 6 * s.length := by
  induction s generalizing p q with
  | nil => exact Nat.le_refl 0
  | cons u s ih =>
      rw [quoteFrom, List.length_cons]
      rcases quoteUnit_short p u s with ⟨hne, hascii, hlength⟩ | hself
      · rw [utf8LengthFrom_ascii hne hascii]
        have hrest := ih (isHighSurrogate u) false
        omega
      · rw [hself, List.singleton_append, utf8LengthFrom]
        have hrest := ih (isHighSurrogate u) (isHighSurrogate u)
        have hat := utf8LengthAt_le q u (quoteFrom (isHighSurrogate u) s)
        omega

/-- **A quoted string takes at most six bytes for a unit.** -/
theorem quotedBytes_le (s : JsString) : quotedBytes s ≤ 6 * s.length + 2 := by
  have hrest := utf8LengthFrom_quoteFrom_le s false false
  rw [quotedBytes, quote, byteLength_cons (by decide), byteLength_snoc (by decide), byteLength]
  omega

/-! ### Integers -/

theorem digitUnits_length_le {n k : Nat} (hk : 0 < k) (h : n < 10 ^ k) : (digitUnits n).length ≤ k := by
  unfold digitUnits
  split
  · exact hk
  · rename_i hn
    rw [List.length_reverse, List.length_map]
    have hbase := Nat.base_pow_length_digits_le 10 n (by omega) hn
    by_contra hlong
    have hpow : 10 ^ (k + 1) ≤ 10 ^ (Nat.digits 10 n).length :=
      Nat.pow_le_pow_right (by omega) (by omega)
    rw [Nat.pow_succ] at hpow
    omega

theorem Decimal.text_ofInt_length {n : Nat} (h : n < 10 ^ 21) :
    (Decimal.ofInt n).text.length ≤ 21 := by
  by_cases hn : n = 0
  · subst hn
    decide
  · obtain ⟨k, hexponent, hvalue⟩ := stripZeros_value n n 0
    have hcanonical := stripZeros_canonical n n 0 (Nat.pos_of_ne_zero hn) (Nat.le_refl n)
    have hneg : decide ((n : Int) < 0) = false := decide_eq_false (by omega)
    have hof : Decimal.ofInt n = ⟨false, (stripZeros n n 0).1, (stripZeros n n 0).2,
        Or.inr hcanonical⟩ := by
      rw [Decimal.ofInt, hneg, Int.natAbs_natCast, Decimal.of, dif_neg hn]
    rw [hof]
    generalize stripZeros n n 0 = stripped at hexponent hvalue hcanonical
    obtain ⟨digits, exponent⟩ := stripped
    dsimp only at hexponent hvalue hcanonical ⊢
    have hdigits : digits ≠ 0 := by
      rintro rfl
      exact hcanonical rfl
    -- the digits and the zeros after them
    have hk : k < 21 := by
      by_contra hge
      have hpow : 10 ^ 21 ≤ 10 ^ k := Nat.pow_le_pow_right (by omega) (by omega)
      have hmul : 10 ^ k ≤ digits * 10 ^ k := Nat.le_mul_of_pos_left _ (Nat.pos_of_ne_zero hdigits)
      omega
    have hlength : (digitUnits digits).length ≤ 21 - k := by
      refine digitUnits_length_le (by omega) ?_
      have hsplit : 10 ^ 21 = 10 ^ (21 - k) * 10 ^ k := by
        rw [← Nat.pow_add, Nat.sub_add_cancel (Nat.le_of_lt hk)]
      rw [hvalue, hsplit] at h
      exact Nat.lt_of_mul_lt_mul_right h
    rw [Decimal.text, if_neg hdigits, if_neg (by exact Bool.false_ne_true), Decimal.body]
    dsimp only
    rw [if_pos (by omega), List.length_append, List.length_replicate]
    omega

theorem jsonBytes_ofNat_le {n : Nat} (h : n < 10 ^ 21) : jsonBytes (.ofNat n) ≤ 21 := by
  have hascii : ∀ u ∈ (Decimal.ofInt n).text, isAscii u = true :=
    fun u hu => isAscii_of_isNumberUnit (Decimal.text_units _ u hu)
  show byteLength (Decimal.ofInt n).text ≤ 21
  rw [byteLength_of_ascii hascii]
  exact Decimal.text_ofInt_length h

/-! ### Dates -/

theorem padded_length {width n : Nat} (hw : 0 < width) (h : n < 10 ^ width) :
    (padded width n).length = width := by
  have hle := digitUnits_length_le hw h
  rw [padded, List.length_append, List.length_replicate]
  omega

theorem civilDate_bounds {days : Int} (hlower : -100000000 ≤ days) (hupper : days ≤ 100000000) :
    (civilDate days).1.natAbs < 10 ^ 6 ∧ (civilDate days).2.1 < 10 ^ 2 ∧
      (civilDate days).2.2 < 10 ^ 2 := by
  unfold civilDate
  dsimp only
  split
  · refine ⟨?_, ?_, ?_⟩ <;> dsimp only <;> omega
  · refine ⟨?_, ?_, ?_⟩ <;> dsimp only <;> omega

theorem isoYear_length_le {year : Int} (h : year.natAbs < 10 ^ 6) : (isoYear year).length ≤ 7 := by
  unfold isoYear
  split
  · rw [padded_length (by omega) (by omega)]
    omega
  · rw [List.length_cons, padded_length (by omega) h]

theorem toISOString_length_le (t : TimeValue) : t.toISOString.length ≤ 27 := by
  have hlower := t.lower
  have hupper := t.upper
  obtain ⟨hyear, hmonth, hday⟩ :=
    @civilDate_bounds (t.ms / 86400000) (by omega) (by omega)
  have hlength := isoYear_length_le hyear
  unfold TimeValue.toISOString
  dsimp only
  simp only [List.length_append, List.length_cons, List.length_nil]
  rw [padded_length (by omega) hmonth, padded_length (by omega) hday,
    padded_length (by omega) (by omega), padded_length (by omega) (by omega),
    padded_length (by omega) (by omega), padded_length (by omega) (by omega)]
  omega

end HuginAgent
