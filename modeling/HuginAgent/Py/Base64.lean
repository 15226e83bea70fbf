/-
The calls of `base64` in `decode_nonce`.

`binascii.a2b_base64` goes through a text one character at a time.  What is not in its alphabet is
skipped, four digits are three bytes, a padding that fills a group ends the text, and a group that
is not filled raises.  The bits that a last digit has to spare are not looked at.  On a text that
the pattern of a nonce lets through and with one `=` behind it, this never raises, and gives the
bytes that `decodeNonce` works with.
-/
import HuginAgent.Protocol.Agreement
import Mathlib.Data.List.DropRight

namespace HuginAgent

namespace Py

/-! ### `base64.urlsafe_b64decode` -/

/-- The six bits of a digit of the standard alphabet. -/
def base64Index (c : CodePoint) : Option Nat :=
  if 65 ≤ c.val ∧ c.val ≤ 90 then some (c.val - 65)
  else if 97 ≤ c.val ∧ c.val ≤ 122 then some (c.val - 71)
  else if 48 ≤ c.val ∧ c.val ≤ 57 then some (c.val + 4)
  else if c = point '+' then some 62
  else if c = point '/' then some 63
  else none

/-- Where the decoder is in a group of four, the bits it has left over, and the paddings it has
counted. -/
structure A2bState where
  quadPos : Nat
  leftchar : Nat
  pads : Nat

/-- A digit, and the byte that it completes. -/
def A2bState.digit (st : A2bState) (v : Nat) : Option UInt8 × A2bState :=
  match st.quadPos with
  | 0 => (none, ⟨1, v, 0⟩)
  | 1 => (some (st.leftchar * 4 + v / 16).toUInt8, ⟨2, v % 16, 0⟩)
  | 2 => (some (st.leftchar * 16 + v / 4).toUInt8, ⟨3, v % 4, 0⟩)
  | _ => (some (st.leftchar * 64 + v).toUInt8, ⟨0, 0, 0⟩)

/-- `binascii.a2b_base64`, not strict; `none` where it raises. -/
def a2bBase64 : A2bState → PyString → Option (List UInt8)
  | st, [] => if st.quadPos = 0 then some [] else none
  | st, c :: rest =>
      if c = point '=' then
        if st.quadPos < 2 then a2bBase64 st rest
        else if 4 ≤ st.quadPos + (st.pads + 1) then some []
        else a2bBase64 { st with pads := st.pads + 1 } rest
      else
        match base64Index c with
        | none => a2bBase64 st rest
        | some v => (a2bBase64 (st.digit v).2 rest).map ((st.digit v).1.toList ++ ·)

/-- `_urlsafe_decode_translation`. -/
def urlsafeDecodeTranslation (c : CodePoint) : CodePoint :=
  if c = point '-' then point '+' else if c = point '_' then point '/' else c

/-- `base64.urlsafe_b64decode(s)`; it raises on what is not ASCII. -/
def urlsafeB64decodeText (s : PyString) : Option (List UInt8) :=
  if PyString.isAscii s then a2bBase64 ⟨0, 0, 0⟩ (s.map urlsafeDecodeTranslation) else none

/-! ### `base64.urlsafe_b64encode` -/

/-- `base64.urlsafe_b64encode(raw)`: the last group is filled up. -/
def urlsafeB64encode (raw : List UInt8) : PyString :=
  ofUnits (toBase64Url raw) ++ List.replicate ((3 - raw.length % 3) % 3) (point '=')

/-- `s.rstrip(c)`. -/
def rstrip (c : CodePoint) (s : PyString) : PyString := s.rdropWhile (· = c)

/-- `decode_nonce`, call by call; `none` where it raises. -/
def decodeNonceCalls (nonceB64u : PyString) : Option (Option (List UInt8)) :=
  if matchesNonceRe nonceB64u then
    (urlsafeB64decodeText (nonceB64u ++ [point '='])).map fun raw =>
      if raw.length ≠ 32 then none
      else if rstrip (point '=') (urlsafeB64encode raw) ≠ nonceB64u then none
      else some raw
  else some none

/-! ### Decoding -/

theorem base64Index_padding : base64Index (point '=') = none := by decide

theorem a2bBase64_digit {st : A2bState} {c : CodePoint} {v : Nat} (h : base64Index c = some v)
    (rest : PyString) :
    a2bBase64 st (c :: rest) =
      (a2bBase64 (st.digit v).2 rest).map ((st.digit v).1.toList ++ ·) := by
  have hne : c ≠ point '=' := by
    rintro rfl
    rw [base64Index_padding] at h
    cases h
  rw [a2bBase64, if_neg hne, h]

/-- **Digits that leave a group one short of full, and the padding that fills it.** -/
theorem a2bBase64_digits {ns : List Nat} (hlength : ns.length % 4 = 3) {cs : PyString}
    (hcs : cs.map base64Index = ns.map some) :
    a2bBase64 ⟨0, 0, 0⟩ (cs ++ [point '=']) = some (fromSextets ns) := by
  induction ns using fromSextets.induct generalizing cs with
  | case1 => cases hlength
  | case2 p => cases hlength
  | case3 p q => cases hlength
  | case4 p q r =>
      obtain ⟨c, cs, rfl, hp, hcs⟩ := List.map_eq_cons_iff.mp hcs
      obtain ⟨d, cs, rfl, hq, hcs⟩ := List.map_eq_cons_iff.mp hcs
      obtain ⟨e, cs, rfl, hr, hcs⟩ := List.map_eq_cons_iff.mp hcs
      obtain rfl := List.map_eq_nil_iff.mp hcs
      simp only [List.cons_append, List.nil_append, a2bBase64_digit hp, a2bBase64_digit hq,
        a2bBase64_digit hr, A2bState.digit]
      rfl
  | case5 p q r s rest ih =>
      obtain ⟨c, cs, rfl, hp, hcs⟩ := List.map_eq_cons_iff.mp hcs
      obtain ⟨d, cs, rfl, hq, hcs⟩ := List.map_eq_cons_iff.mp hcs
      obtain ⟨e, cs, rfl, hr, hcs⟩ := List.map_eq_cons_iff.mp hcs
      obtain ⟨f, cs, rfl, hs, hcs⟩ := List.map_eq_cons_iff.mp hcs
      have hrest : rest.length % 4 = 3 := by
        simp only [List.length_cons] at hlength
        omega
      -- a full group leaves the decoder where it began
      simp only [List.cons_append, a2bBase64_digit hp, a2bBase64_digit hq, a2bBase64_digit hr,
        a2bBase64_digit hs, A2bState.digit, ih hrest hcs]
      rfl

/-- The translated digits have the same values. -/
theorem base64Index_translated {t : JsString} (h : isBase64Url 43 t = true) :
    ((ofUnits t).map urlsafeDecodeTranslation).map base64Index =
      (t.filterMap base64Value).map some := by
  rw [isBase64Url, Bool.and_eq_true, List.all_eq_true] at h
  have hunit : ∀ u : UInt16, (isAlnum u || u = unit '_' || u = unit '-') = true →
      base64Index (urlsafeDecodeTranslation (ofUnit u)) = base64Value u := by
    intro u hu
    simp only [Bool.or_eq_true, decide_eq_true_eq] at hu
    rcases hu with (hu | rfl) | rfl
    · have hname : isNameUnit u = true := by
        rw [isNameUnit, hu]
        rfl
      exact forall_isNameUnit (p := fun u => isAlnum u = true →
        base64Index (urlsafeDecodeTranslation (ofUnit u)) = base64Value u) (by decide) hname hu
    · decide
    · decide
  have hall := h.2
  clear h
  induction t with
  | nil => rfl
  | cons u t ih =>
      obtain ⟨hu, ht⟩ := List.forall_mem_cons.mp hall
      obtain ⟨n, hn⟩ := Option.isSome_iff_exists.mp (base64Value_isSome hu)
      rw [List.filterMap_cons_some hn, List.map_cons, ← ih ht, ofUnits, List.map_cons, List.map_cons,
        List.map_cons, hunit u hu, hn]
      rfl

/-- **Of the digits of a nonce and one `=`, the decoder makes the bytes that are complete.** -/
theorem urlsafeB64decodeText_eq {s : PyString} (h : matchesNonceRe s = true) :
    urlsafeB64decodeText (s ++ [point '=']) = some (urlsafeB64decode s) := by
  rw [← matchesNonceRe_eq] at h
  have hascii := isAsciiText_of_isBase64Url h
  have hs := eq_ofUnits_of_units hascii
  have hpadded : PyString.isAscii (s ++ [point '=']) = true := by
    rw [PyString.isAscii, List.all_append, Bool.and_eq_true]
    refine ⟨?_, by decide⟩
    rw [hs]
    exact isAscii_ofUnits hascii
  have hindices := base64Index_translated h
  have hlength : ((units s).filterMap base64Value).length = 43 := by
    have hcount := congrArg List.length hindices
    rw [List.length_map, List.length_map, List.length_map, ofUnits, List.length_map] at hcount
    rw [isBase64Url, Bool.and_eq_true, decide_eq_true_eq] at h
    rw [← hcount, h.1]
  rw [← hs] at hindices
  rw [urlsafeB64decodeText, if_pos hpadded, List.map_append]
  exact a2bBase64_digits (by rw [hlength]) hindices

/-! ### Encoding -/

/-- What is stripped is the padding. -/
theorem rstrip_urlsafeB64encode (raw : List UInt8) :
    rstrip (point '=') (urlsafeB64encode raw) = b64u raw := by
  have hnot : ∀ c ∈ ofUnits (toBase64Url raw), c ≠ point '=' := by
    rintro c hc rfl
    obtain ⟨u, hu, hunit⟩ := List.mem_map.mp hc
    obtain rfl := ofUnit_injective hunit
    exact absurd (List.all_eq_true.mp (isBase64UrlUnit_toBase64Url raw) _ hu) (by decide)
  have hstrip : ∀ n, rstrip (point '=') (ofUnits (toBase64Url raw) ++ List.replicate n (point '=')) =
      ofUnits (toBase64Url raw) := by
    intro n
    induction n with
    | zero =>
        rw [List.replicate_zero, List.append_nil, rstrip, List.rdropWhile_eq_self_iff]
        intro hl hlast
        exact hnot _ (List.getLast_mem hl) (of_decide_eq_true hlast)
    | succ n ih =>
        rw [List.replicate_succ', ← List.append_assoc, rstrip, List.rdropWhile_concat]
        exact (if_pos (decide_eq_true rfl)).trans ih
  exact hstrip _

/-- **`decode_nonce` does not raise, and gives what `decodeNonce` gives.** -/
theorem decodeNonceCalls_eq (s : PyString) : decodeNonceCalls s = some (decodeNonce s) := by
  rw [decodeNonceCalls, decodeNonce]
  cases hre : matchesNonceRe s with
  | false => rfl
  | true =>
      rw [if_pos rfl, if_pos rfl, urlsafeB64decodeText_eq hre, Option.map_some,
        rstrip_urlsafeB64encode]

end Py

end HuginAgent
