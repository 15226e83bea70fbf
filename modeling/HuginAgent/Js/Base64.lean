/-
base64url is a change of base.

The bytes after the point are a fraction in base 256, the digits one in base 64.  Writing fills the
fraction up with zeros to the end of a digit, and reading cuts it at the end of a byte.  So a text
is the encoding of at most one list of bytes, and what is read of it leaves out the bits to spare.
-/
import HuginAgent.Js.Buffer
import HuginAgent.Kit.Radix

namespace HuginAgent

open Radix

/-- What the bytes stand for. -/
def byteValues (bytes : List UInt8) : List Nat := bytes.map UInt8.toNat

theorem byteValues_lt (bytes : List UInt8) : ∀ d ∈ byteValues bytes, d < 256 := by
  refine List.forall_mem_map.mpr fun b _ => ?_
  exact b.toNat_lt

@[simp] theorem length_byteValues (bytes : List UInt8) : (byteValues bytes).length = bytes.length :=
  List.length_map _

theorem byteValues_injective {bytes bytes' : List UInt8} (h : byteValues bytes = byteValues bytes') :
    bytes = bytes' :=
  List.map_injective_iff.mpr (fun _ _ => UInt8.toNat_inj.mp) h

/-! ### Writing -/

/-- **The digits are the fraction of the bytes.** -/
theorem sextets_sameFraction (bytes : List UInt8) :
    SameFraction 64 256 (sextets bytes) (byteValues bytes) := by
  induction bytes using sextets.induct with
  | case1 => rfl
  | case2 a =>
      simp only [SameFraction, sextets, byteValues, List.map_cons, List.map_nil, numeral_cons,
        numeral_nil, List.length_cons, List.length_nil]
      omega
  | case3 a b =>
      simp only [SameFraction, sextets, byteValues, List.map_cons, List.map_nil, numeral_cons,
        numeral_nil, List.length_cons, List.length_nil]
      omega
  | case4 a b c rest ih =>
      show SameFraction 64 256
        ([a.toNat / 4, a.toNat % 4 * 16 + b.toNat / 16, b.toNat % 16 * 4 + c.toNat / 64,
          c.toNat % 64] ++ sextets rest)
        ([a.toNat, b.toNat, c.toNat] ++ byteValues rest)
      refine SameFraction.append (by simp) ?_ ih
      simp only [numeral_cons, numeral_nil, List.length_cons, List.length_nil]
      omega

/-- `s` is the text of RFC 4648, section 5, without padding: as many digits as it takes, and the
same fraction. -/
structure IsBase64UrlOf (bytes : List UInt8) (s : JsString) : Prop where
  length : s.length = (bytes.length * 4 + 2) / 3
  digits : ∃ ns, s = ns.map base64Unit ∧ (∀ n ∈ ns, n < 64) ∧ SameFraction 64 256 ns (byteValues bytes)

/-- **What `toString("base64url")` gives is that text, and no other is.** -/
theorem isBase64UrlOf_iff {bytes : List UInt8} {s : JsString} :
    IsBase64UrlOf bytes s ↔ toBase64Url bytes = s := by
  constructor
  · rintro ⟨hlength, ns, rfl, hlt, hsame⟩
    rw [List.length_map] at hlength
    have hdigits : sextets bytes = ns :=
      SameFraction.unique (by decide) (by decide) ((sextets_length bytes).trans hlength.symm)
        (sextets_lt bytes) hlt (sextets_sameFraction bytes) hsame
    rw [toBase64Url, hdigits]
  · rintro rfl
    refine ⟨?_, sextets bytes, rfl, sextets_lt bytes, sextets_sameFraction bytes⟩
    rw [toBase64Url, List.length_map, sextets_length]

/-! ### Reading -/

/-- **The bytes that are read are the first ones of the fraction of the digits.** -/
theorem fromSextets_truncates {ns : List Nat} (h : ∀ n ∈ ns, n < 64) :
    Truncates 64 256 ns (byteValues (fromSextets ns)) := by
  induction ns using fromSextets.induct with
  | case1 => exact ⟨Nat.le_refl _, Nat.one_pos⟩
  | case2 p =>
      have hp := h p (by simp)
      refine ⟨?_, ?_⟩ <;>
        simp only [fromSextets, byteValues, List.map_nil, numeral_cons, numeral_nil, List.length_cons,
          List.length_nil] <;>
        omega
  | case3 p q =>
      have hp := h p (by simp)
      have hq := h q (by simp)
      have hx : (p * 4 + q / 16).toUInt8.toNat = p * 4 + q / 16 := toNat_toUInt8 (by omega)
      refine ⟨?_, ?_⟩ <;>
        simp only [fromSextets, byteValues, List.map_cons, List.map_nil, numeral_cons, numeral_nil,
          List.length_cons, List.length_nil, hx] <;>
        omega
  | case4 p q r =>
      have hp := h p (by simp)
      have hq := h q (by simp)
      have hr := h r (by simp)
      have hx : (p * 4 + q / 16).toUInt8.toNat = p * 4 + q / 16 := toNat_toUInt8 (by omega)
      have hy : (q % 16 * 16 + r / 4).toUInt8.toNat = q % 16 * 16 + r / 4 := toNat_toUInt8 (by omega)
      refine ⟨?_, ?_⟩ <;>
        simp only [fromSextets, byteValues, List.map_cons, List.map_nil, numeral_cons, numeral_nil,
          List.length_cons, List.length_nil, hx, hy] <;>
        omega
  | case5 p q r s rest ih =>
      have hp := h p (by simp)
      have hq := h q (by simp)
      have hr := h r (by simp)
      have hs := h s (by simp)
      have hx : (p * 4 + q / 16).toUInt8.toNat = p * 4 + q / 16 := toNat_toUInt8 (by omega)
      have hy : (q % 16 * 16 + r / 4).toUInt8.toNat = q % 16 * 16 + r / 4 := toNat_toUInt8 (by omega)
      have hz : (r % 4 * 64 + s).toUInt8.toNat = r % 4 * 64 + s := toNat_toUInt8 (by omega)
      have hrest : Truncates 64 256 rest (byteValues (fromSextets rest)) :=
        ih fun n hn => h n (by simp [hn])
      rw [fromSextets, byteValues, List.map_cons, List.map_cons, List.map_cons, hx, hy, hz]
      show Truncates 64 256 ([p, q, r, s] ++ rest)
        ([p * 4 + q / 16, q % 16 * 16 + r / 4, r % 4 * 64 + s] ++ byteValues (fromSextets rest))
      refine Truncates.append (by decide) (by simp) ?_ hrest
      simp only [numeral_cons, numeral_nil, List.length_cons, List.length_nil]
      omega

end HuginAgent
