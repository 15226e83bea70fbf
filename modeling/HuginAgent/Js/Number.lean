/-
JavaScript numbers as text.

`String(n)`, `JSON.stringify(n)` and the number serialization of RFC 8785 are one
function: it prints the shortest decimal that reads back as `n`.  A finite number
is therefore kept here as that decimal, its significant digits without a trailing
zero and a power of ten, and `Decimal.text` lays it out by the four cases
ECMAScript gives.  Every double has such a form, so nothing is lost; `-0` is
printed as `0` and is the same value here.

`parseNumber` is the number rule of the JSON grammar.  What is proved is that it
reads back what `Decimal.text` wrote.  All four layouts come down to the same
three facts: where the digits stop, what value the digits have, and that
trailing zeros go back into the exponent.
-/
import HuginAgent.Js.Text
import Mathlib.Data.Nat.Digits.Lemmas

namespace HuginAgent

/-! ### Decimal digits -/

def digitUnit (d : Nat) : UInt16 := (48 + d).toUInt16

def isDigit (u : UInt16) : Bool := 48 ≤ u && u ≤ 57

def digitVal (u : UInt16) : Nat := u.toNat - 48

/-- The decimal digits of `n`, most significant first. -/
def digitUnits (n : Nat) : JsString :=
  if n = 0 then [unit '0'] else ((Nat.digits 10 n).map digitUnit).reverse

/-- The value of a string of digits. -/
def digitsValue (ds : JsString) : Nat := Nat.ofDigits 10 (ds.map digitVal).reverse

theorem isDigit_digitUnit {d : Nat} (h : d < 10) : isDigit (digitUnit d) = true := by
  have : ∀ d < 10, isDigit (digitUnit d) = true := by decide
  exact this d h

theorem digitVal_digitUnit {d : Nat} (h : d < 10) : digitVal (digitUnit d) = d := by
  have : ∀ d < 10, digitVal (digitUnit d) = d := by decide
  exact this d h

theorem digits_lt (n : Nat) : ∀ d ∈ Nat.digits 10 n, d < 10 :=
  fun _ hd => Nat.digits_lt_base (by omega) hd

theorem digitUnits_isDigit (n : Nat) : ∀ u ∈ digitUnits n, isDigit u = true := by
  intro u hu
  unfold digitUnits at hu
  split at hu
  · rw [List.mem_singleton.mp hu]
    decide
  · simp only [List.mem_reverse, List.mem_map] at hu
    obtain ⟨d, hd, rfl⟩ := hu
    exact isDigit_digitUnit (digits_lt n d hd)

theorem digitUnits_ne_nil (n : Nat) : digitUnits n ≠ [] := by
  unfold digitUnits
  split
  · simp
  · rename_i h
    simpa using Nat.digits_ne_nil_iff_ne_zero.mpr h

theorem digitsValue_digitUnits (n : Nat) : digitsValue (digitUnits n) = n := by
  unfold digitUnits digitsValue
  split
  · rename_i h
    rw [h]
    decide
  · have hmap : (Nat.digits 10 n).map (digitVal ∘ digitUnit) = Nat.digits 10 n := by
      conv_rhs => rw [← List.map_id (Nat.digits 10 n)]
      exact List.map_congr_left fun d hd => digitVal_digitUnit (digits_lt n d hd)
    rw [List.map_reverse, List.reverse_reverse, List.map_map, hmap]
    exact Nat.ofDigits_digits 10 n

theorem digitUnits_injective {m n : Nat} (h : digitUnits m = digitUnits n) : m = n := by
  rw [← digitsValue_digitUnits m, h, digitsValue_digitUnits]

theorem digitsValue_append (a b : JsString) :
    digitsValue (a ++ b) = digitsValue a * 10 ^ b.length + digitsValue b := by
  unfold digitsValue
  rw [List.map_append, List.reverse_append, Nat.ofDigits_append]
  simp only [List.length_reverse, List.length_map]
  ring

theorem digitsValue_zeros (k : Nat) : digitsValue (List.replicate k (unit '0')) = 0 := by
  unfold digitsValue
  rw [List.map_replicate, List.reverse_replicate]
  exact Nat.ofDigits_replicate_zero

/-- The leading digit of a positive number is not `0`. -/
theorem digitUnits_head {n : Nat} (h : n ≠ 0) : (digitUnits n).head? ≠ some (unit '0') := by
  have hne : Nat.digits 10 n ≠ [] := Nat.digits_ne_nil_iff_ne_zero.mpr h
  have hlast := Nat.getLast_digit_ne_zero 10 h
  have hlt : (Nat.digits 10 n).getLast hne < 10 := digits_lt n _ (List.getLast_mem hne)
  rw [digitUnits, if_neg h, List.head?_reverse, List.getLast?_map,
    List.getLast?_eq_some_getLast hne]
  intro hc
  have hval := congrArg (Option.map digitVal) hc
  simp only [Option.map_some, Option.some.injEq, digitVal_digitUnit hlt] at hval
  exact hlast (by rw [hval]; decide)

/-! ### Decimals -/

/-- A finite number `± digits × 10 ^ exponent`, without trailing zeros. -/
@[ext] structure Decimal where
  neg : Bool
  digits : Nat
  exponent : Int
  canonical : (digits = 0 ∧ neg = false ∧ exponent = 0) ∨ digits % 10 ≠ 0
deriving DecidableEq

/-- Move trailing zeros into the exponent. -/
def stripZeros : Nat → Nat → Int → Nat × Int
  | 0, n, e => (n, e)
  | fuel + 1, n, e => if n % 10 = 0 then stripZeros fuel (n / 10) (e + 1) else (n, e)

theorem stripZeros_canonical : ∀ (fuel n : Nat) (e : Int), 0 < n → n ≤ fuel →
    (stripZeros fuel n e).1 % 10 ≠ 0 := by
  intro fuel
  induction fuel with
  | zero => intro n e h hle; omega
  | succ fuel ih =>
      intro n e h hle
      simp only [stripZeros]
      split
      · exact ih (n / 10) (e + 1) (by omega) (by omega)
      · assumption

theorem stripZeros_mul_pow {s : Nat} (hs : s % 10 ≠ 0) :
    ∀ (j fuel : Nat) (e : Int), j < fuel → stripZeros fuel (s * 10 ^ j) e = (s, e + j) := by
  intro j
  induction j with
  | zero =>
      intro fuel e h
      obtain ⟨fuel, rfl⟩ : ∃ k, fuel = k + 1 := ⟨fuel - 1, by omega⟩
      simp [stripZeros, hs]
  | succ j ih =>
      intro fuel e h
      obtain ⟨fuel, rfl⟩ : ∃ k, fuel = k + 1 := ⟨fuel - 1, by omega⟩
      have hmul : s * 10 ^ (j + 1) = 10 * (s * 10 ^ j) := by ring
      have hmod : s * 10 ^ (j + 1) % 10 = 0 := by omega
      have hdiv : s * 10 ^ (j + 1) / 10 = s * 10 ^ j := by omega
      simp only [stripZeros, hmod, if_pos, hdiv]
      rw [ih fuel (e + 1) (by omega)]
      push_cast
      congr 1
      ring

/-- What is stripped goes into the exponent. -/
theorem stripZeros_value : ∀ (fuel n : Nat) (e : Int), ∃ k : Nat,
    (stripZeros fuel n e).2 = e + k ∧ n = (stripZeros fuel n e).1 * 10 ^ k := by
  intro fuel
  induction fuel with
  | zero =>
      intro n e
      exact ⟨0, by simp [stripZeros], by simp [stripZeros]⟩
  | succ fuel ih =>
      intro n e
      simp only [stripZeros]
      split
      · obtain ⟨k, he, hn⟩ := ih (n / 10) (e + 1)
        refine ⟨k + 1, by rw [he]; push_cast; ring, ?_⟩
        have hpow : (stripZeros fuel (n / 10) (e + 1)).1 * 10 ^ (k + 1) =
            10 * ((stripZeros fuel (n / 10) (e + 1)).1 * 10 ^ k) := by ring
        omega
      · exact ⟨0, by simp, by simp⟩

namespace Decimal

/-- The number zero. -/
def zero : Decimal := ⟨false, 0, 0, Or.inl ⟨rfl, rfl, rfl⟩⟩

/-- The decimal `± n × 10 ^ e`. -/
def of (neg : Bool) (n : Nat) (e : Int) : Decimal :=
  if h : n = 0 then zero
  else ⟨neg, (stripZeros n n e).1, (stripZeros n n e).2,
    Or.inr (stripZeros_canonical n n e (Nat.pos_of_ne_zero h) (Nat.le_refl n))⟩

def ofInt (i : Int) : Decimal := of (decide (i < 0)) i.natAbs 0

/-- Number::toString of ECMAScript, without the sign: `k` digits, the point after the `n`th. -/
def body (d : Decimal) : JsString :=
  let ds := digitUnits d.digits
  let k : Int := ds.length
  let n : Int := k + d.exponent
  if k ≤ n ∧ n ≤ 21 then ds ++ List.replicate (n - k).toNat (unit '0')
  else if 0 < n ∧ n ≤ 21 then ds.take n.toNat ++ unit '.' :: ds.drop n.toNat
  else if -6 < n ∧ n ≤ 0 then
    unit '0' :: unit '.' :: (List.replicate (-n).toNat (unit '0') ++ ds)
  else
    ds.take 1 ++ (if ds.length = 1 then [] else unit '.' :: ds.drop 1) ++
      unit 'e' :: (if 0 < n - 1 then unit '+' else unit '-') :: digitUnits (n - 1).natAbs

/-- `String(d)`. -/
def text (d : Decimal) : JsString :=
  if d.digits = 0 then [unit '0']
  else if d.neg then unit '-' :: d.body else d.body

/-- Reading back the digits, with any number of zeros moved out of the exponent. -/
theorem of_mul_pow (d : Decimal) (h : d.digits ≠ 0) (j : Nat) {e : Int}
    (he : e + j = d.exponent) : of d.neg (d.digits * 10 ^ j) e = d := by
  have hs : d.digits % 10 ≠ 0 := by
    rcases d.canonical with hz | hs
    · exact absurd hz.1 h
    · exact hs
  have hpos : d.digits * 10 ^ j ≠ 0 := by positivity
  have hlt : j < d.digits * 10 ^ j := by
    calc j < 10 ^ j := Nat.lt_pow_self (by omega)
      _ ≤ d.digits * 10 ^ j := Nat.le_mul_of_pos_left _ (Nat.pos_of_ne_zero h)
  unfold of
  rw [dif_neg hpos]
  have hstrip := stripZeros_mul_pow hs j (d.digits * 10 ^ j) e hlt
  ext
  · rfl
  · show (stripZeros _ _ e).1 = d.digits
    rw [hstrip]
  · show (stripZeros _ _ e).2 = d.exponent
    rw [hstrip]
    exact he

theorem of_digits (d : Decimal) (h : d.digits ≠ 0) {e : Int} (he : e = d.exponent) :
    of d.neg d.digits e = d := by
  have := of_mul_pow d h 0 (e := e) (by simpa using he)
  simpa using this

theorem ofInt_natCast_injective {m n : Nat} (h : ofInt (m : Int) = ofInt (n : Int)) : m = n := by
  have hof : ∀ i : Nat, ofInt (i : Int) = of false i 0 := by
    intro i
    have hneg : ¬ ((i : Int) < 0) := by omega
    simp [ofInt, hneg]
  have hzero : ∀ i : Nat, i ≠ 0 → (of false i 0).digits ≠ 0 := by
    intro i hi
    have hc := stripZeros_canonical i i 0 (Nat.pos_of_ne_zero hi) (le_refl i)
    rw [of, dif_neg hi]
    show (stripZeros i i 0).1 ≠ 0
    omega
  rw [hof, hof] at h
  by_cases hm : m = 0
  · by_contra hne
    have hn := hzero n (fun hc => hne (hm.trans hc.symm))
    rw [← h, of, dif_pos hm] at hn
    exact hn rfl
  · have hn : n ≠ 0 := by
      rintro rfl
      exact hzero m hm (by rw [h]; rfl)
    obtain ⟨k, hke, hkm⟩ := stripZeros_value m m 0
    obtain ⟨j, hje, hjn⟩ := stripZeros_value n n 0
    rw [of, of, dif_neg hm, dif_neg hn] at h
    have hdigits : (stripZeros m m 0).1 = (stripZeros n n 0).1 := congrArg Decimal.digits h
    have hexp : (stripZeros m m 0).2 = (stripZeros n n 0).2 := congrArg Decimal.exponent h
    have hkj : k = j := by omega
    rw [hkm, hjn, hdigits, hkj]

/-! ### Integers -/

def signed (neg : Bool) (n : Nat) : Int := if neg then -n else n

/-- The integer that the number is, where `Number.isInteger(d)`. -/
def toInt? (d : Decimal) : Option Int :=
  if 0 ≤ d.exponent then some (signed d.neg (d.digits * 10 ^ d.exponent.toNat)) else none

/-- `Math.trunc(d)`. -/
def trunc (d : Decimal) : Int :=
  signed d.neg (if 0 ≤ d.exponent then d.digits * 10 ^ d.exponent.toNat
    else d.digits / 10 ^ (-d.exponent).toNat)

theorem eq_zero {d : Decimal} (h : d.digits = 0) : d = zero := by
  rcases d.canonical with ⟨hdigits, hneg, hexponent⟩ | hmod
  · exact Decimal.ext hneg hdigits hexponent
  · omega

theorem toInt?_ofInt (i : Int) : (ofInt i).toInt? = some i := by
  by_cases hi : i.natAbs = 0
  · obtain rfl : i = 0 := by omega
    rfl
  · obtain ⟨k, hexponent, hvalue⟩ := stripZeros_value i.natAbs i.natAbs 0
    rw [Int.zero_add] at hexponent
    have hpos : 0 ≤ (stripZeros i.natAbs i.natAbs 0).2 := by omega
    have hnat : (stripZeros i.natAbs i.natAbs 0).2.toNat = k := by omega
    rw [ofInt, of, dif_neg hi, toInt?]
    simp only [if_pos hpos, hnat, ← hvalue, signed, decide_eq_true_eq, Option.some.injEq]
    split <;> omega

theorem eq_ofInt {d : Decimal} {i : Int} (h : d.toInt? = some i) : d = ofInt i := by
  unfold toInt? at h
  split at h
  · rename_i hexponent
    obtain rfl := Option.some.inj h
    by_cases hdigits : d.digits = 0
    · rw [eq_zero hdigits]
      rfl
    · have hmul := of_mul_pow d hdigits d.exponent.toNat (e := 0) (by omega)
      have hpos : 0 < d.digits * 10 ^ d.exponent.toNat :=
        Nat.mul_pos (Nat.pos_of_ne_zero hdigits) (Nat.pow_pos (by omega))
      have habs : (signed d.neg (d.digits * 10 ^ d.exponent.toNat)).natAbs =
          d.digits * 10 ^ d.exponent.toNat := by
        unfold signed
        split <;> omega
      have hneg : decide (signed d.neg (d.digits * 10 ^ d.exponent.toNat) < 0) = d.neg := by
        unfold signed
        cases d.neg with
        | false => exact decide_eq_false (by simp only [Bool.false_eq_true, if_false]; omega)
        | true => exact decide_eq_true (by rw [if_pos rfl]; omega)
      rw [ofInt, habs, hneg, hmul]
  · exact nomatch h

end Decimal

/-- A JavaScript number. -/
inductive JsNumber
  | finite (d : Decimal)
  | nan
  | infinity (neg : Bool)
deriving DecidableEq

namespace JsNumber

def ofInt (i : Int) : JsNumber := .finite (.ofInt i)

/-- `Number.isFinite(n)`. -/
def isFinite : JsNumber → Bool
  | .finite _ => true
  | _ => false

/-- `String(n)`. -/
def text : JsNumber → JsString
  | .finite d => d.text
  | .nan => js "NaN"
  | .infinity false => js "Infinity"
  | .infinity true => js "-Infinity"

end JsNumber

/-! ### The number rule of the JSON grammar -/

/-- `frac`, when there is one: the digits after the point. -/
def parseFraction : JsString → Option (JsString × JsString)
  | [] => some ([], [])
  | u :: rest =>
      if u = unit '.' then
        if rest.takeWhile isDigit = [] then none
        else some (rest.takeWhile isDigit, rest.dropWhile isDigit)
      else some ([], u :: rest)

/-- The sign of an exponent. -/
def parseSign : JsString → Bool × JsString
  | [] => (false, [])
  | u :: rest =>
      if u = unit '-' then (true, rest)
      else if u = unit '+' then (false, rest)
      else (false, u :: rest)

/-- `exp`, when there is one. -/
def parseExponent : JsString → Option (Int × JsString)
  | [] => some (0, [])
  | u :: rest =>
      if u = unit 'e' ∨ u = unit 'E' then
        let ds := (parseSign rest).2.takeWhile isDigit
        if ds = [] then none
        else some (if (parseSign rest).1 then -(digitsValue ds : Int) else digitsValue ds,
          (parseSign rest).2.dropWhile isDigit)
      else some (0, u :: rest)

/-- `int frac? exp?`; more than one digit may not start with `0`. -/
def parseUnsigned (neg : Bool) (s : JsString) : Option (JsNumber × JsString) :=
  let ip := s.takeWhile isDigit
  if ip = [] ∨ (ip.head? = some (unit '0') ∧ ip.length ≠ 1) then none
  else do
    let (fp, s) ← parseFraction (s.dropWhile isDigit)
    let (e, s) ← parseExponent s
    return (.finite (.of neg (digitsValue (ip ++ fp)) (e - fp.length)), s)

def parseNumber : JsString → Option (JsNumber × JsString)
  | [] => none
  | u :: rest => if u = unit '-' then parseUnsigned true rest else parseUnsigned false (u :: rest)

/-! ### Reading back what was printed -/

/-- `r` does not continue a run of digits. -/
def StopsDigits (r : JsString) : Prop := ∀ u ∈ r.head?, isDigit u = false

/-- `r` does not continue a number: it starts with nothing a number may hold. -/
structure EndsNumber (r : JsString) : Prop where
  digit : StopsDigits r
  point : r.head? ≠ some (unit '.')
  exp : r.head? ≠ some (unit 'e') ∧ r.head? ≠ some (unit 'E')

theorem endsNumber_nil : EndsNumber [] :=
  ⟨by simp [StopsDigits], by simp, by simp⟩

theorem span_digits {ds r : JsString} (hds : ∀ u ∈ ds, isDigit u = true) (hr : StopsDigits r) :
    (ds ++ r).takeWhile isDigit = ds ∧ (ds ++ r).dropWhile isDigit = r := by
  have htake : r.takeWhile isDigit = [] := by
    cases r with
    | nil => rfl
    | cons u r => simp [hr u (by simp)]
  have hdrop : r.dropWhile isDigit = r := by
    cases r with
    | nil => rfl
    | cons u r => simp [hr u (by simp)]
  rw [List.takeWhile_append_of_pos hds, List.dropWhile_append_of_pos hds, htake, hdrop]
  simp

theorem parseFraction_none {t : JsString} (h : t.head? ≠ some (unit '.')) :
    parseFraction t = some ([], t) := by
  cases t with
  | nil => rfl
  | cons u t =>
      have hu : u ≠ unit '.' := by simpa using h
      simp [parseFraction, hu]

theorem parseFraction_point {f t : JsString} (hne : f ≠ []) (hf : ∀ u ∈ f, isDigit u = true)
    (ht : StopsDigits t) : parseFraction (unit '.' :: (f ++ t)) = some (f, t) := by
  obtain ⟨htake, hdrop⟩ := span_digits hf ht
  simp [parseFraction, htake, hdrop, hne]

theorem parseExponent_none {t : JsString} (h : t.head? ≠ some (unit 'e') ∧ t.head? ≠ some (unit 'E')) :
    parseExponent t = some (0, t) := by
  cases t with
  | nil => rfl
  | cons u t =>
      have hu : u ≠ unit 'e' ∧ u ≠ unit 'E' := by simpa using h
      simp [parseExponent, hu.1, hu.2]

theorem parseExponent_some {m : Int} {r : JsString} (hr : StopsDigits r) :
    parseExponent (unit 'e' :: (if 0 < m then unit '+' else unit '-') ::
      (digitUnits m.natAbs ++ r)) = some (m, r) := by
  obtain ⟨htake, hdrop⟩ := span_digits (digitUnits_isDigit m.natAbs) hr
  have hne := digitUnits_ne_nil m.natAbs
  have hplus : unit '+' ≠ unit '-' := by decide
  by_cases hm : 0 < m
  · have hval : |m| = m := abs_of_pos hm
    simp [parseExponent, parseSign, hm, hplus, htake, hdrop, hne, digitsValue_digitUnits, hval]
  · have hval : -|m| = m := by rw [abs_of_nonpos (by omega)]; omega
    simp [parseExponent, parseSign, hm, htake, hdrop, hne, digitsValue_digitUnits, hval]

theorem parseUnsigned_parts {neg : Bool} {i f t q r : JsString} {e : Int} (hne : i ≠ [])
    (hi : ∀ u ∈ i, isDigit u = true) (hlead : i.head? = some (unit '0') → i.length = 1)
    (ht : StopsDigits t) (hfrac : parseFraction t = some (f, q))
    (hexp : parseExponent q = some (e, r)) :
    parseUnsigned neg (i ++ t)
      = some (.finite (.of neg (digitsValue (i ++ f)) (e - f.length)), r) := by
  obtain ⟨htake, hdrop⟩ := span_digits hi ht
  have hcond : ¬(i = [] ∨ (i.head? = some (unit '0') ∧ i.length ≠ 1)) := by
    rintro (h | ⟨h1, h2⟩)
    · exact hne h
    · exact h2 (hlead h1)
  unfold parseUnsigned
  simp only [htake, hdrop]
  rw [if_neg hcond, hfrac]
  simp [hexp]

theorem zeros_isDigit (k : Nat) : ∀ u ∈ List.replicate k (unit '0'), isDigit u = true := by
  intro u hu
  rw [(List.mem_replicate.mp hu).2]
  decide

theorem stopsDigits_cons {u : UInt16} {r : JsString} (h : isDigit u = false) :
    StopsDigits (u :: r) := by
  intro v hv
  simp only [List.head?_cons, Option.mem_def, Option.some.injEq] at hv
  rwa [← hv]

/-- The four layouts of `Decimal.body` read back alike. -/
theorem parseUnsigned_body (d : Decimal) (h : d.digits ≠ 0) {r : JsString} (hr : EndsNumber r) :
    parseUnsigned d.neg (d.body ++ r) = some (.finite d, r) := by
  have hds := digitUnits_isDigit d.digits
  have hne := digitUnits_ne_nil d.digits
  have hval := digitsValue_digitUnits d.digits
  have hhead := digitUnits_head h
  unfold Decimal.body
  set ds := digitUnits d.digits with hdsdef
  have hlen : 0 < ds.length := List.length_pos_iff.mpr hne
  simp only
  split
  · -- all digits stand before the point
    rename_i hn
    set j := ((ds.length : Int) + d.exponent - ds.length).toNat with hj
    rw [parseUnsigned_parts (i := ds ++ List.replicate j (unit '0')) (f := []) (by simp [hne])
      ?_ ?_ hr.digit (parseFraction_none hr.point) (parseExponent_none hr.exp)]
    · rw [List.append_nil, digitsValue_append, digitsValue_zeros, hval, List.length_replicate,
        Nat.add_zero, Decimal.of_mul_pow d h j (by simp; omega)]
    · intro u hu
      rcases List.mem_append.mp hu with hu | hu
      · exact hds u hu
      · exact zeros_isDigit j u hu
    · intro hc
      rw [List.head?_append_of_ne_nil _ hne] at hc
      exact absurd hc hhead
  split
  · -- the point stands between two digits
    rename_i hk hn
    set n := ((ds.length : Int) + d.exponent).toNat with hndef
    have hlt : n < ds.length := by omega
    have hpos : 0 < n := by omega
    rw [List.append_assoc, List.cons_append]
    rw [parseUnsigned_parts (i := ds.take n) (f := ds.drop n) (q := r) (e := 0) ?_ ?_ ?_
      (stopsDigits_cons (by decide)) ?_ (parseExponent_none hr.exp)]
    · rw [List.take_append_drop, hval, Decimal.of_digits d h]
      simp only [List.length_drop]
      omega
    · rw [ne_eq, List.take_eq_nil_iff]
      rintro (hc | hc)
      · omega
      · exact hne hc
    · exact fun u hu => hds u (List.mem_of_mem_take hu)
    · intro hc
      rw [List.head?_take, if_neg (by omega)] at hc
      exact absurd hc hhead
    · refine parseFraction_point ?_ (fun u hu => hds u (List.mem_of_mem_drop hu)) hr.digit
      intro hc
      have := congrArg List.length hc
      simp at this
      omega
  split
  · -- the point stands before all digits
    rename_i hn
    set j := (-((ds.length : Int) + d.exponent)).toNat with hj
    rw [show unit '0' :: unit '.' :: (List.replicate j (unit '0') ++ ds) ++ r
      = [unit '0'] ++ (unit '.' :: (List.replicate j (unit '0') ++ ds ++ r)) by simp]
    rw [parseUnsigned_parts (i := [unit '0']) (f := List.replicate j (unit '0') ++ ds) (q := r)
      (e := 0) (by simp) ?_ (by simp) (stopsDigits_cons (by decide)) ?_ (parseExponent_none hr.exp)]
    · rw [← List.append_assoc, digitsValue_append, hval,
        show [unit '0'] ++ List.replicate j (unit '0') = List.replicate (j + 1) (unit '0') from rfl,
        digitsValue_zeros, Nat.zero_mul, Nat.zero_add, Decimal.of_digits d h]
      simp only [List.length_append, List.length_replicate]
      omega
    · intro u hu
      rw [List.mem_singleton.mp hu]
      decide
    · refine parseFraction_point (by simp [hne]) ?_ hr.digit
      intro u hu
      rcases List.mem_append.mp hu with hu | hu
      · exact zeros_isDigit j u hu
      · exact hds u hu
  · -- scientific notation
    set m := (ds.length : Int) + d.exponent - 1 with hm
    have htake : ds.take 1 ≠ [] := by
      rw [ne_eq, List.take_eq_nil_iff]
      rintro (hc | hc)
      · omega
      · exact hne hc
    have hexp : parseExponent (unit 'e' :: (if 0 < m then unit '+' else unit '-') ::
        (digitUnits m.natAbs ++ r)) = some (m, r) := parseExponent_some hr.digit
    have hstop : StopsDigits (unit 'e' :: (if 0 < m then unit '+' else unit '-') ::
        (digitUnits m.natAbs ++ r)) := stopsDigits_cons (by decide)
    have hlead : (ds.take 1).head? = some (unit '0') → (ds.take 1).length = 1 := by
      intro _
      simp
      omega
    have htd : ∀ u ∈ ds.take 1, isDigit u = true := fun u hu => hds u (List.mem_of_mem_take hu)
    by_cases h1 : ds.length = 1
    · rw [if_pos h1, List.append_nil, List.append_assoc]
      simp only [List.cons_append]
      have hpoint : unit 'e' ≠ unit '.' := by decide
      rw [parseUnsigned_parts htake htd hlead hstop (parseFraction_none (by simpa using hpoint)) hexp]
      rw [List.append_nil, List.take_of_length_le (by omega), hval, Decimal.of_digits d h]
      simp only [List.length_nil]
      omega
    · rw [if_neg h1, List.append_assoc, List.append_assoc]
      simp only [List.cons_append]
      rw [parseUnsigned_parts (f := ds.drop 1) htake htd hlead (stopsDigits_cons (by decide))
        (parseFraction_point ?_ (fun u hu => hds u (List.mem_of_mem_drop hu)) hstop) hexp]
      · rw [List.take_append_drop, hval, Decimal.of_digits d h]
        simp only [List.length_drop]
        omega
      · intro hc
        have := congrArg List.length hc
        simp at this
        omega

theorem Decimal.body_ne_nil (d : Decimal) : d.body ≠ [] := by
  have hne := digitUnits_ne_nil d.digits
  unfold Decimal.body
  simp only
  split
  · simp [hne]
  split
  · simp
  split <;> simp

/-- **A printed number reads back as itself.** -/
theorem parseNumber_text (d : Decimal) {r : JsString} (hr : EndsNumber r) :
    parseNumber (d.text ++ r) = some (.finite d, r) := by
  unfold Decimal.text
  split
  · rename_i hzero
    have hd : d = Decimal.zero := by
      rcases d.canonical with ⟨h1, h2, h3⟩ | h
      · ext
        · exact h2
        · exact h1
        · exact h3
      · rw [hzero] at h
        exact absurd rfl h
    have hminus : unit '0' ≠ unit '-' := by decide
    simp only [List.cons_append, List.nil_append, parseNumber, if_neg hminus]
    rw [show unit '0' :: r = [unit '0'] ++ r from rfl,
      parseUnsigned_parts (by simp) (by simp; decide) (by simp) hr.digit
        (parseFraction_none hr.point) (parseExponent_none hr.exp), hd]
    rfl
  split
  · rename_i hzero hneg
    have hbody := parseUnsigned_body d hzero hr
    rw [hneg] at hbody
    simp only [List.cons_append, parseNumber, if_pos]
    exact hbody
  · rename_i hzero hneg
    have hbody := parseUnsigned_body d hzero hr
    obtain ⟨u, rest, hcons⟩ := List.exists_cons_of_ne_nil d.body_ne_nil
    have hu : u ≠ unit '-' := by
      -- a minus sign starts no digit run
      rintro rfl
      rw [hcons] at hbody
      have hdash : isDigit (unit '-') = false := by decide
      simp [parseUnsigned, hdash] at hbody
    rw [Bool.not_eq_true] at hneg
    rw [hneg, hcons] at hbody
    rw [hcons]
    simp only [List.cons_append, parseNumber, if_neg hu]
    exact hbody

end HuginAgent
