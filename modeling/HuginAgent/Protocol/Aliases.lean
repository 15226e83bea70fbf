/-
43 digits for 32 bytes.

The digits have room for 258 bits.  All three checks decode a text and encode it again, which lets
through the one spelling of the bytes whose last two bits are zero: of the number that the digits
are, the decoders see the quotient by four (`fromBase64Url_eq_iff`), and the checks that there is no
remainder (`isCanonical32_iff_number`).  So each list of bytes has one spelling that passes
(`exists_canonical`).
-/
import HuginAgent.Auth.Spelling
import HuginAgent.Js.Base64
import HuginAgent.Py.Base64

namespace HuginAgent

open Radix

/-- The number that the digits of a text are. -/
def digitNumber (s : JsString) : Nat := numeral 64 (s.filterMap base64Value)

/-- The accepted texts are the encodings of 32 bytes, each of one, and are told by what they decode
to.  `text` is how the encoding is written on the side of the check. -/
structure NoAliases {τ : Type} (text : JsString → τ) (accepts : τ → Bool)
    (decode : τ → Option (List UInt8)) (encode : List UInt8 → τ) : Prop where
  accepts_iff : ∀ s, accepts s = true ↔
    ∃! bytes : List UInt8, bytes.length = 32 ∧ ∃ t, IsBase64UrlOf bytes t ∧ s = text t
  encodesAgain : ∀ s, accepts s = true → ∃ bytes, decode s = some bytes ∧ encode bytes = s
  apart : ∀ s s', accepts s = true → accepts s' = true → s ≠ s' → decode s ≠ decode s'

/-- What `decode_nonce` returns. -/
def decodedNonce (s : PyString) : Option (List UInt8) := (Py.decodeNonceCalls s).join

structure EncodingsDoNotAlias : Prop where
  b64u32 : NoAliases id validateB64u32 (fun s => some (fromBase64Url s)) toBase64Url
  nonce : NoAliases id isChallengeNonce (fun s => some (fromBase64Url s)) toBase64Url
  decodeNonce : NoAliases ofUnits (fun s => (decodedNonce s).isSome) decodedNonce
    fun raw => Py.rstrip (point '=') (Py.urlsafeB64encode raw)

section

variable {s t : JsString} {bytes : List UInt8}

/-! ### The digits of a text -/

/-- A digit is written as it is read. -/
theorem base64Value_digit {u : UInt16} (h : (isAlnum u || u = unit '_' || u = unit '-') = true) :
    ∃ n, base64Value u = some n ∧ n < 64 ∧ base64Unit n = u := by
  have hany : (base64Value u).any (fun n => n < 64 && base64Unit n = u) = true := by
    simp only [Bool.or_eq_true, decide_eq_true_eq] at h
    rcases h with (h | rfl) | rfl
    · have hname : isNameUnit u = true := by
        rw [isNameUnit, h]
        rfl
      exact forall_isNameUnit (p := fun u => isAlnum u = true →
        (base64Value u).any (fun n => n < 64 && base64Unit n = u) = true) (by decide) hname h
    · decide
    · decide
  obtain ⟨n, hn⟩ := Option.isSome_iff_exists.mp (base64Value_isSome h)
  rw [hn, Option.any_some, Bool.and_eq_true, decide_eq_true_eq, decide_eq_true_eq] at hany
  exact ⟨n, hn, hany⟩

/-- A text of digits is told by their values. -/
theorem digits_of_all (h : ∀ u ∈ s, (isAlnum u || u = unit '_' || u = unit '-') = true) :
    (s.filterMap base64Value).map base64Unit = s ∧ ∀ n ∈ s.filterMap base64Value, n < 64 := by
  induction s with
  | nil => exact ⟨rfl, fun _ hn => absurd hn List.not_mem_nil⟩
  | cons u s ih =>
      obtain ⟨hu, hs⟩ := List.forall_mem_cons.mp h
      obtain ⟨n, hn, hlt, hunit⟩ := base64Value_digit hu
      obtain ⟨hagain, hrest⟩ := ih hs
      rw [List.filterMap_cons_some hn, List.map_cons, hunit, hagain]
      exact ⟨rfl, List.forall_mem_cons.mpr ⟨hlt, hrest⟩⟩

structure Digits43 (s : JsString) : Prop where
  again : (s.filterMap base64Value).map base64Unit = s
  lt : ∀ n ∈ s.filterMap base64Value, n < 64
  length : (s.filterMap base64Value).length = 43

theorem digits43_of_isBase64Url (h : isBase64Url 43 s = true) : Digits43 s := by
  rw [isBase64Url, Bool.and_eq_true, decide_eq_true_eq, List.all_eq_true] at h
  obtain ⟨hagain, hlt⟩ := digits_of_all h.2
  refine ⟨hagain, hlt, ?_⟩
  have hlength := congrArg List.length hagain
  rw [List.length_map, h.1] at hlength
  exact hlength

/-- 43 digits are told by their number. -/
theorem digitNumber_injective (hs : isBase64Url 43 s = true) (ht : isBase64Url 43 t = true)
    (h : digitNumber s = digitNumber t) : s = t := by
  have hs := digits43_of_isBase64Url hs
  have ht := digits43_of_isBase64Url ht
  have hdigits : s.filterMap base64Value = t.filterMap base64Value :=
    numeral_injective (by decide) (hs.length.trans ht.length.symm) hs.lt ht.lt h
  rw [← hs.again, hdigits, ht.again]

/-! ### The bits to spare -/

/-- 43 digits have four times as many values as 32 bytes. -/
theorem pow_digits : 64 ^ 43 = 4 * 256 ^ 32 := by norm_num

/-- **What is read are the digits without the last two bits.** -/
theorem numeral_fromBase64Url (h : isBase64Url 43 s = true) :
    numeral 256 (byteValues (fromBase64Url s)) = digitNumber s / 4 := by
  have hdigits := digits43_of_isBase64Url h
  have hcut := (fromSextets_truncates hdigits.lt).numeral_eq (by decide)
  have hlength : (fromSextets (s.filterMap base64Value)).length = 32 := length_fromBase64Url h
  rw [length_byteValues, hlength, hdigits.length, pow_digits,
    Nat.mul_div_mul_right _ _ (Nat.pow_pos (by decide))] at hcut
  exact hcut

/-- **What is written has zeros there.** -/
theorem digitNumber_toBase64Url (h : bytes.length = 32) :
    digitNumber (toBase64Url bytes) = numeral 256 (byteValues bytes) * 4 := by
  have hsame : numeral 64 (sextets bytes) * 256 ^ (byteValues bytes).length =
      numeral 256 (byteValues bytes) * 64 ^ (sextets bytes).length := sextets_sameFraction bytes
  have hlength : (sextets bytes).length = 43 := by rw [sextets_length, h]
  rw [length_byteValues, h, hlength, pow_digits, ← Nat.mul_assoc] at hsame
  rw [digitNumber, toBase64Url, filterMap_base64Unit (sextets_lt bytes)]
  exact Nat.eq_of_mul_eq_mul_right (Nat.pow_pos (by decide)) hsame

/-- **43 digits decode alike exactly when they differ in the last two bits at most.** -/
theorem fromBase64Url_eq_iff (hs : isBase64Url 43 s = true) (ht : isBase64Url 43 t = true) :
    fromBase64Url s = fromBase64Url t ↔ digitNumber s / 4 = digitNumber t / 4 := by
  rw [← numeral_fromBase64Url hs, ← numeral_fromBase64Url ht]
  constructor
  · intro h
    rw [h]
  · intro h
    refine byteValues_injective (numeral_injective (by decide) ?_ (byteValues_lt _) (byteValues_lt _) h)
    rw [length_byteValues, length_byteValues, length_fromBase64Url hs, length_fromBase64Url ht]

/-- **A text is canonical exactly when it is 43 digits with zeros in the last two bits.** -/
theorem isCanonical32_iff_number :
    isCanonical32 s = true ↔ isBase64Url 43 s = true ∧ digitNumber s % 4 = 0 := by
  rw [isCanonical32, Bool.and_eq_true, decide_eq_true_eq]
  refine and_congr_right fun hdigits => ?_
  have hlength := length_fromBase64Url hdigits
  have hagain := digitNumber_toBase64Url hlength
  rw [numeral_fromBase64Url hdigits] at hagain
  constructor
  · intro h
    rw [h] at hagain
    rw [hagain, Nat.mul_mod_left]
  · intro hzero
    refine digitNumber_injective (isBase64Url_of_isSecretOf ⟨hlength, rfl⟩) hdigits ?_
    rw [hagain, Nat.div_mul_cancel (Nat.dvd_of_mod_eq_zero hzero)]

/-- Of the spellings of 32 bytes, one is canonical. -/
theorem exists_canonical (h : isBase64Url 43 s = true) :
    ∃! t, isCanonical32 t = true ∧ fromBase64Url t = fromBase64Url s := by
  have hlength := length_fromBase64Url h
  refine ⟨toBase64Url (fromBase64Url s), ⟨?_, fromBase64Url_toBase64Url _⟩, ?_⟩
  · rw [← validateB64u32_eq]
    exact validateB64u32_iff.mpr ⟨_, hlength, rfl⟩
  · rintro t ⟨ht, hbytes⟩
    rw [isCanonical32, Bool.and_eq_true, decide_eq_true_eq] at ht
    rw [← hbytes, ht.2]

/-! ### The three checks -/

theorem isCanonical32_iff : isCanonical32 s = true ↔
    ∃! bytes : List UInt8, bytes.length = 32 ∧ ∃ t, IsBase64UrlOf bytes t ∧ s = id t := by
  rw [← validateB64u32_eq, validateB64u32_iff]
  constructor
  · rintro ⟨bytes, hbytes⟩
    refine ⟨bytes, ⟨hbytes.1, s, isBase64UrlOf_iff.mpr hbytes.2, rfl⟩, ?_⟩
    rintro bytes' ⟨hlength, t, ht, rfl⟩
    exact isSecretOf_unique ⟨hlength, isBase64UrlOf_iff.mp ht⟩ hbytes
  · rintro ⟨bytes, ⟨hlength, t, ht, rfl⟩, -⟩
    exact ⟨bytes, hlength, isBase64UrlOf_iff.mp ht⟩

theorem isCanonical32_noAliases :
    NoAliases id isCanonical32 (fun s => some (fromBase64Url s)) toBase64Url where
  accepts_iff _ := isCanonical32_iff
  encodesAgain s hs := by
    rw [isCanonical32, Bool.and_eq_true, decide_eq_true_eq] at hs
    exact ⟨_, rfl, hs.2⟩
  apart s t hs ht hne hbytes := hne (isCanonical32_injective hs ht (Option.some.inj hbytes))

theorem decodedNonce_eq (s : PyString) : decodedNonce s = Py.decodeNonce s := by
  rw [decodedNonce, Py.decodeNonceCalls_eq, Option.join_some]

/-- A text that is accepted is the same text on both sides. -/
theorem decodedNonce_isSome_iff {s : PyString} :
    (decodedNonce s).isSome = true ↔ ∃ t, isCanonical32 t = true ∧ s = ofUnits t := by
  rw [decodedNonce_eq, decodeNonce_eq, isChallengeNonce]
  constructor
  · intro h
    have hcanonical : isCanonical32 (units s) = true := by
      cases hcanonical : isCanonical32 (units s) with
      | true => rfl
      | false =>
          rw [hcanonical] at h
          cases h
    refine ⟨units s, hcanonical, eq_ofUnits_of_units ?_⟩
    exact isAsciiText_of_isBase64Url (isBase64Url_of_isCanonical32 hcanonical)
  · rintro ⟨t, ht, rfl⟩
    rw [units_ofUnits, ht]
    rfl

theorem decodedNonce_ofUnits (h : isCanonical32 t = true) :
    decodedNonce (ofUnits t) = some (fromBase64Url t) := by
  rw [decodedNonce_eq, decodeNonce_eq, units_ofUnits, isChallengeNonce, if_pos h]

theorem decodedNonce_noAliases :
    NoAliases ofUnits (fun s => (decodedNonce s).isSome) decodedNonce
      (fun raw => Py.rstrip (point '=') (Py.urlsafeB64encode raw)) where
  accepts_iff s := by
    rw [decodedNonce_isSome_iff]
    constructor
    · rintro ⟨t, ht, rfl⟩
      obtain ⟨bytes, ⟨hlength, t', hbytes, htext⟩, hunique⟩ := isCanonical32_iff.mp ht
      refine ⟨bytes, ⟨hlength, t', hbytes, congrArg ofUnits htext⟩, ?_⟩
      rintro bytes' ⟨hlength', t', hbytes', htext'⟩
      exact hunique bytes' ⟨hlength', t', hbytes', ofUnits_injective htext'⟩
    · rintro ⟨bytes, ⟨hlength, t, hbytes, rfl⟩, -⟩
      refine ⟨t, ?_, rfl⟩
      rw [← validateB64u32_eq]
      exact validateB64u32_iff.mpr ⟨bytes, hlength, isBase64UrlOf_iff.mp hbytes⟩
  encodesAgain s hs := by
    obtain ⟨t, ht, rfl⟩ := decodedNonce_isSome_iff.mp hs
    refine ⟨fromBase64Url t, decodedNonce_ofUnits ht, ?_⟩
    rw [isCanonical32, Bool.and_eq_true, decide_eq_true_eq] at ht
    rw [Py.rstrip_urlsafeB64encode, Py.b64u, ht.2]
  apart s s' hs hs' hne hbytes := by
    obtain ⟨t, ht, rfl⟩ := decodedNonce_isSome_iff.mp hs
    obtain ⟨t', ht', rfl⟩ := decodedNonce_isSome_iff.mp hs'
    rw [decodedNonce_ofUnits ht, decodedNonce_ofUnits ht'] at hbytes
    exact hne (congrArg ofUnits (isCanonical32_injective ht ht' (Option.some.inj hbytes)))

end

/-- **A text is accepted exactly when it is the encoding of 32 bytes, and no two are of the same.** -/
theorem encodings_dontAlias : EncodingsDoNotAlias where
  b64u32 := (funext validateB64u32_eq : validateB64u32 = isCanonical32) ▸ isCanonical32_noAliases
  nonce := isCanonical32_noAliases
  decodeNonce := decodedNonce_noAliases

end HuginAgent
