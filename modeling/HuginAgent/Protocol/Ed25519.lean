/-
Signatures over transcripts, `protocol/v1/ed25519.ts`.

The curve is outside: a verifier is a function of a key, a message and a signature, all of them
bytes.  What is checked around it is here, the shape that a signature has on the wire.
-/
import HuginAgent.Protocol.Transcript

namespace HuginAgent

/-- `crypto.verify`, of a raw key, a message and a raw signature. -/
abbrev Verifier := List UInt8 → List UInt8 → List UInt8 → Bool

/-- A key that has not 32 bytes makes no public key, and nothing verifies against it. -/
def verifyTranscript (verify : Verifier) (publicRaw transcript : List UInt8)
    (signatureB64u : JsString) : Bool :=
  isEd25519Sig signatureB64u && (fromBase64Url signatureB64u).length = 64 &&
    publicRaw.length = 32 && verify publicRaw transcript (fromBase64Url signatureB64u)

variable {verify : Verifier} {publicRaw transcript : List UInt8}

theorem verify_of_verifyTranscript {signature : JsString}
    (h : verifyTranscript verify publicRaw transcript signature = true) :
    verify publicRaw transcript (fromBase64Url signature) = true := by
  rw [verifyTranscript, Bool.and_eq_true] at h
  exact h.2

/-! ### Bytes in base64url -/

theorem isBase64Url_toBase64Url (bytes : List UInt8) :
    isBase64Url (toBase64Url bytes).length (toBase64Url bytes) = true := by
  rw [isBase64Url, Bool.and_eq_true, decide_eq_true_eq]
  refine ⟨rfl, List.all_eq_true.mpr fun u hu => ?_⟩
  have hunit := List.all_eq_true.mp (isBase64UrlUnit_toBase64Url bytes) u hu
  simp only [isBase64UrlUnit, isAlnum, Bool.or_eq_true, decide_eq_true_eq] at hunit ⊢
  tauto

theorem toBase64Url_length (bytes : List UInt8) :
    (toBase64Url bytes).length = (bytes.length * 4 + 2) / 3 := by
  rw [toBase64Url, List.length_map, sextets_length]

theorem isEd25519Sig_toBase64Url {bytes : List UInt8} (h : bytes.length = 64) :
    isEd25519Sig (toBase64Url bytes) = true := by
  have hlength : (toBase64Url bytes).length = 86 := by rw [toBase64Url_length, h]
  rw [isEd25519Sig, ← hlength]
  exact isBase64Url_toBase64Url bytes

/-- 32 bytes are written canonically. -/
theorem validateB64u32_toBase64Url {bytes : List UInt8} (h : bytes.length = 32) :
    validateB64u32 (toBase64Url bytes) = true := by
  have hlength : (toBase64Url bytes).length = 43 := by rw [toBase64Url_length, h]
  rw [validateB64u32, fromBase64Url_toBase64Url, h, ← hlength, isBase64Url_toBase64Url]
  simp

theorem toBase64Url_fromBase64Url {s : JsString} (h : validateB64u32 s = true) :
    toBase64Url (fromBase64Url s) = s := by
  simp only [validateB64u32, Bool.and_eq_true, decide_eq_true_eq] at h
  exact h.2

theorem length_of_validateB64u32 {s : JsString} (h : validateB64u32 s = true) :
    (fromBase64Url s).length = 32 := by
  simp only [validateB64u32, Bool.and_eq_true, decide_eq_true_eq] at h
  exact h.1.2

/-- What is signed and sent verifies, where the raw signature does. -/
theorem verifyTranscript_toBase64Url {signature : List UInt8} (hkey : publicRaw.length = 32)
    (hsignature : signature.length = 64) (h : verify publicRaw transcript signature = true) :
    verifyTranscript verify publicRaw transcript (toBase64Url signature) = true := by
  rw [verifyTranscript, isEd25519Sig_toBase64Url hsignature, fromBase64Url_toBase64Url,
    hsignature, hkey, h]
  rfl

end HuginAgent
