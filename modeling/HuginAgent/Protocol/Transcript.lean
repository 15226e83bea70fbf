/-
The texts that are signed: `protocol/v1/transcript.ts` and `protocol/v1/pairing.ts`.

A transcript is put together of parts, most of them strings that begin with their length and one,
the nonce or the public key, 32 raw bytes.  So two transcripts have the same parts as soon as they
are the same bytes (`Kit/Framing.lean`), and the first part tells a handshake from a pairing.  A
part tells its field: what goes into it is ASCII, and a nonce and a secret are base64url in the
one form that has no bits to spare.  Valid fields have a transcript, unless the origin is longer
than four bytes can tell (`isSome_buildTranscript`, `isSome_buildPairingTranscript`).
-/
import HuginAgent.Js.Texts
import HuginAgent.Kit.Framing
import HuginAgent.Kit.Grammar
import HuginAgent.Protocol.Origin
import Mathlib.Data.Set.Function
import Mathlib.Order.CompletePartialOrder
import Mathlib.Order.Disjoint

namespace HuginAgent

open Framing

/-! ### Transcripts -/

def domainTag : JsString := js "hugin-agent/auth/v1"

def authAlg : JsString := js "ed25519"

/-- `lp(x)` of a string. -/
def lp (x : JsString) : Option (List UInt8) := prefixed (utf8Encode x)

structure TranscriptFields where
  challengeId : JsString
  nonceRaw : List UInt8
  agentId : JsString
  keyId : JsString
  protocolVersion : JsString
  tenantId : JsString
  serverOrigin : JsString
deriving DecidableEq

def TranscriptFields.parts (f : TranscriptFields) : List (Option (List UInt8)) :=
  [lp domainTag, lp f.challengeId, some f.nonceRaw, lp f.agentId, lp f.keyId, lp f.protocolVersion,
    lp authAlg, lp f.tenantId, lp f.serverOrigin]

/-- It throws on a field that is too long to be written. -/
def buildTranscript (f : TranscriptFields) : Option (List UInt8) := concat f.parts

/-! ### Pairing -/

def pairingDomainTag : JsString := js "hugin-pair-pop-v1"

/-- 43 digits of base64url that are written as they are read. -/
def isCanonical32 (s : JsString) : Bool :=
  isBase64Url 43 s && toBase64Url (fromBase64Url s) = s

def validateB64u32 (s : JsString) : Bool :=
  isBase64Url 43 s && (fromBase64Url s).length = 32 && toBase64Url (fromBase64Url s) = s

structure PairingTranscriptFields where
  secret : JsString
  publicRaw : List UInt8
  serverOrigin : JsString
  protocolVersion : JsString
deriving DecidableEq

def PairingTranscriptFields.parts (f : PairingTranscriptFields) : List (Option (List UInt8)) :=
  [lp pairingDomainTag, lp f.secret, some f.publicRaw, lp f.serverOrigin, lp f.protocolVersion]

/-- It throws on a secret or a key that is not valid. -/
def buildPairingTranscript (f : PairingTranscriptFields) : Option (List UInt8) :=
  if validateB64u32 f.secret then
    if f.publicRaw.length = 32 then concat f.parts else none
  else none

/-! ### Validators -/

/-- `AuthChallenge.nonce`. -/
def isChallengeNonce : JsString → Bool := isCanonical32

structure TranscriptFields.Valid (idna : Idna) (f : TranscriptFields) : Prop where
  challengeId : isAuthId f.challengeId = true
  nonceRaw : f.nonceRaw.length = 32
  agentId : isAuthId f.agentId = true
  keyId : isAuthId f.keyId = true
  protocolVersion : isSemVer f.protocolVersion = true
  tenantId : validateTenantId f.tenantId = true
  serverOrigin : canonicalizeServerOrigin idna f.serverOrigin = some f.serverOrigin

structure PairingTranscriptFields.Valid (idna : Idna) (f : PairingTranscriptFields) : Prop where
  secret : validateB64u32 f.secret = true
  publicRaw : f.publicRaw.length = 32
  serverOrigin : canonicalizeServerOrigin idna f.serverOrigin = some f.serverOrigin
  protocolVersion : isSemVer f.protocolVersion = true

/-! ### What passes is ASCII -/

def IsAsciiText (s : JsString) : Prop := ∀ u ∈ s, isAscii u = true

theorem utf8Encode_injective {s t : JsString} (hs : IsAsciiText s) (ht : IsAsciiText t)
    (h : utf8Encode s = utf8Encode t) : s = t := by
  have hlone : ∀ {r : JsString}, IsAsciiText r → hasLoneSurrogate r = false := by
    intro r hr
    by_cases hnil : r = []
    · rw [hnil]
      rfl
    · exact sealed_lone (sealed_of_ascii hnil hr)
  rw [← utf8Decode_utf8Encode s (hlone hs), h, utf8Decode_utf8Encode t (hlone ht)]

theorem isAscii_of_lt {u : UInt16} (h : u.toNat < 128) : isAscii u = true := by
  simp only [isAscii, decide_eq_true_eq, UInt16.lt_iff_toNat_lt]
  exact h

theorem isAscii_of_isNameUnit {u : UInt16} (h : isNameUnit u = true) : isAscii u = true :=
  forall_isNameUnit (p := fun u => isAscii u = true) (by decide) h

/-- `[A-Za-z0-9._-]`. -/
theorem isAscii_of_idUnit {u : UInt16}
    (h : (isAlnum u || u = unit '.' || u = unit '_' || u = unit '-') = true) : isAscii u = true := by
  simp only [Bool.or_eq_true, decide_eq_true_eq] at h
  rcases h with ((h | h) | h) | h
  · refine isAscii_of_isNameUnit ?_
    rw [isNameUnit, h]
    rfl
  · rw [h]
    decide
  · rw [h]
    decide
  · rw [h]
    decide

theorem isAsciiText_of_isAuthId {s : JsString} (h : isAuthId s = true) : IsAsciiText s := by
  rw [isAuthId, Bool.and_eq_true, List.all_eq_true] at h
  exact fun u hu => isAscii_of_idUnit (h.2 u hu)

theorem isAsciiText_of_tenantId {s : JsString} (h : validateTenantId s = true) : IsAsciiText s := by
  rw [validateTenantId, Bool.and_eq_true, List.all_eq_true] at h
  exact fun u hu => isAscii_of_idUnit (h.2 u hu)

theorem isAsciiText_of_isBase64Url {n : Nat} {s : JsString} (h : isBase64Url n s = true) :
    IsAsciiText s := by
  rw [isBase64Url, Bool.and_eq_true, List.all_eq_true] at h
  intro u hu
  refine isAscii_of_idUnit ?_
  have hunit := h.2 u hu
  simp only [Bool.or_eq_true, decide_eq_true_eq] at hunit ⊢
  rcases hunit with (hunit | hunit) | hunit
  · exact Or.inl (Or.inl (Or.inl hunit))
  · exact Or.inl (Or.inr hunit)
  · exact Or.inr hunit

/-- What may be in a prerelease. -/
def isPreUnit (u : UInt16) : Bool := isAlnum u || u = unit '.' || u = unit '-'

theorem isSemVer_eq (s : JsString) :
    isSemVer s = (s.length ≤ 64 && Grammar.isVersion isDigit isPreUnit (unit '.') (unit '-') s) := by
  have hdigits : afterDigits = Grammar.afterSome isDigit := by
    funext t
    rw [afterDigits, List.span_eq_takeWhile_dropWhile, Grammar.afterSome]
    cases t.takeWhile isDigit with
    | nil => rfl
    | cons u rest => rfl
  have hdot : afterDot = Grammar.afterOne (unit '.') := by
    funext t
    cases t <;> rfl
  have htail : isPrerelease = Grammar.isTail isPreUnit (unit '-') := by
    funext t
    cases t <;> rfl
  rw [isSemVer, hdigits, hdot, htail]
  rfl

theorem isAsciiText_of_isSemVer {s : JsString} (h : isSemVer s = true) : IsAsciiText s := by
  rw [isSemVer_eq, Bool.and_eq_true, Grammar.isVersion_iff (by decide) (by decide)] at h
  obtain ⟨-, a, b, c, tail, ha, hb, hc, htail, rfl⟩ := h
  have hdigit : ∀ {u : UInt16}, isDigit u = true → isAscii u = true :=
    fun hu => isAscii_of_lt (by have hbounds := isDigit_bounds hu; omega)
  have hpre : ∀ {u : UInt16}, isPreUnit u = true → isAscii u = true := by
    intro u hu
    simp only [isPreUnit, Bool.or_eq_true, decide_eq_true_eq] at hu
    rcases hu with (hu | hu) | hu
    · refine isAscii_of_isNameUnit ?_
      rw [isNameUnit, hu]
      rfl
    · rw [hu]
      decide
    · rw [hu]
      decide
  have htailAscii : IsAsciiText tail := by
    cases tail with
    | nil => exact List.forall_mem_nil _
    | cons u tail =>
        simp only [Grammar.isTail, Bool.and_eq_true, decide_eq_true_eq, List.all_eq_true] at htail
        refine List.forall_mem_cons.mpr ⟨?_, fun v hv => hpre (htail.2 v hv)⟩
        rw [htail.1.1]
        decide
  intro u hu
  simp only [List.mem_append, List.mem_cons] at hu
  rcases hu with hu | hu | hu | hu | hu | hu
  · exact hdigit (ha.2 u hu)
  · rw [hu]
    decide
  · exact hdigit (hb.2 u hu)
  · rw [hu]
    decide
  · exact hdigit (hc.2 u hu)
  · exact htailAscii u hu

theorem ServerOrigin.isAsciiText (o : ServerOrigin) : IsAsciiText o.text := by
  have hscheme : IsAsciiText (schemeText o.secure ++ js "://") := by
    rcases o.schemeText_cases with h | h <;> rw [h] <;> unfold IsAsciiText <;> decide
  have hhost : IsAsciiText o.host := by
    rcases o.hostOk.cases with h | ⟨-, h⟩
    · rw [h]
      unfold IsAsciiText
      decide
    · exact fun u hu => isAscii_of_isNameUnit (h u hu)
  have hport : IsAsciiText (portText o.port) := by
    cases o.port with
    | none => exact nofun
    | some n =>
        refine List.forall_mem_cons.mpr ⟨by decide, fun u hu => isAscii_of_lt ?_⟩
        have hbounds := isDigit_bounds (digitUnits_isDigit n u hu)
        omega
  intro u hu
  rw [text, originText] at hu
  rcases List.mem_append.mp hu with hu | hu
  · rcases List.mem_append.mp hu with hu | hu
    · exact hscheme u hu
    · exact hhost u hu
  · exact hport u hu

theorem isAsciiText_of_canonical {idna : Idna} {s : JsString}
    (h : canonicalizeServerOrigin idna s = some s) : IsAsciiText s := by
  obtain ⟨-, o, ho, -⟩ := canonicalizeServerOrigin_eq_some_iff.mp h
  rw [ho]
  exact o.isAsciiText

/-! ### Digits of base64url -/

theorem base64Value_isSome {u : UInt16}
    (h : (isAlnum u || u = unit '_' || u = unit '-') = true) : (base64Value u).isSome = true := by
  simp only [Bool.or_eq_true, decide_eq_true_eq] at h
  rcases h with (h | h) | h
  · have hname : isNameUnit u = true := by
      rw [isNameUnit, h]
      rfl
    exact forall_isNameUnit (p := fun u => isAlnum u = true → (base64Value u).isSome = true)
      (by decide) hname h
  · rw [h]
    decide
  · rw [h]
    decide

/-- **43 digits are 32 bytes.** -/
theorem length_fromBase64Url {s : JsString} (h : isBase64Url 43 s = true) :
    (fromBase64Url s).length = 32 := by
  rw [isBase64Url, Bool.and_eq_true, decide_eq_true_eq, List.all_eq_true] at h
  have hlength : ∀ t : JsString, (∀ u ∈ t, (base64Value u).isSome = true) →
      (t.filterMap base64Value).length = t.length := by
    intro t
    induction t with
    | nil => exact fun _ => rfl
    | cons u t ih =>
        intro ht
        obtain ⟨n, hn⟩ := Option.isSome_iff_exists.mp (ht u List.mem_cons_self)
        rw [List.filterMap_cons_some hn, List.length_cons, List.length_cons,
          ih fun v hv => ht v (List.mem_cons_of_mem _ hv)]
  rw [fromBase64Url, length_fromSextets, hlength s fun u hu => base64Value_isSome (h.2 u hu), h.1]

/-- Digits in canonical form are told by their bytes. -/
theorem isCanonical32_injective {s t : JsString} (hs : isCanonical32 s = true)
    (ht : isCanonical32 t = true) (h : fromBase64Url s = fromBase64Url t) : s = t := by
  simp only [isCanonical32, Bool.and_eq_true, decide_eq_true_eq] at hs ht
  rw [← hs.2, h, ht.2]

/-- **The two validators are one.** -/
theorem validateB64u32_eq (s : JsString) : validateB64u32 s = isCanonical32 s := by
  cases hdigits : isBase64Url 43 s with
  | false =>
      rw [validateB64u32, isCanonical32, hdigits]
      rfl
  | true =>
      rw [validateB64u32, isCanonical32, hdigits, length_fromBase64Url hdigits]
      rfl

theorem isBase64Url_of_isCanonical32 {s : JsString} (h : isCanonical32 s = true) :
    isBase64Url 43 s = true := by
  rw [isCanonical32, Bool.and_eq_true] at h
  exact h.1

theorem isBase64Url_of_validateB64u32 {s : JsString} (h : validateB64u32 s = true) :
    isBase64Url 43 s = true := isBase64Url_of_isCanonical32 (validateB64u32_eq s ▸ h)

theorem length_of_isChallengeNonce {s : JsString} (h : isChallengeNonce s = true) :
    (fromBase64Url s).length = 32 := length_fromBase64Url (isBase64Url_of_isCanonical32 h)

/-! ### There is a transcript -/

theorem isSome_lp {s : JsString} (hs : IsAsciiText s) (h : s.length < 0x100000000) :
    (lp s).isSome = true := by
  refine isSome_prefixed ?_
  rw [length_utf8Encode, byteLength_of_ascii hs]
  exact h

theorem length_le_of_isAuthId {s : JsString} (h : isAuthId s = true) : s.length ≤ 128 := by
  simp only [isAuthId, Bool.and_eq_true, decide_eq_true_eq] at h
  exact h.1.2

theorem length_le_of_tenantId {s : JsString} (h : validateTenantId s = true) : s.length ≤ 128 := by
  simp only [validateTenantId, Bool.and_eq_true, decide_eq_true_eq] at h
  exact h.1.2

theorem length_le_of_isSemVer {s : JsString} (h : isSemVer s = true) : s.length ≤ 64 := by
  rw [isSemVer, Bool.and_eq_true, decide_eq_true_eq] at h
  exact h.1

/-- **Valid fields have a transcript**: of all fields only an origin can be too long. -/
theorem isSome_buildTranscript {idna : Idna} {f : TranscriptFields} (hf : f.Valid idna)
    (horigin : f.serverOrigin.length < 0x100000000) : (buildTranscript f).isSome = true := by
  refine isSome_concat ?_
  have hid : ∀ {s : JsString}, isAuthId s = true → (lp s).isSome = true := by
    intro s hs
    have hle := length_le_of_isAuthId hs
    exact isSome_lp (isAsciiText_of_isAuthId hs) (by omega)
  have hversion := length_le_of_isSemVer hf.protocolVersion
  have htenant := length_le_of_tenantId hf.tenantId
  simp only [TranscriptFields.parts, List.forall_mem_cons, List.not_mem_nil, IsEmpty.forall_iff,
    implies_true, and_true]
  exact ⟨by decide, hid hf.challengeId, rfl, hid hf.agentId, hid hf.keyId,
    isSome_lp (isAsciiText_of_isSemVer hf.protocolVersion) (by omega), by decide,
    isSome_lp (isAsciiText_of_tenantId hf.tenantId) (by omega),
    isSome_lp (isAsciiText_of_canonical hf.serverOrigin) horigin⟩

theorem isSome_buildPairingTranscript {idna : Idna} {f : PairingTranscriptFields}
    (hf : f.Valid idna) (horigin : f.serverOrigin.length < 0x100000000) :
    (buildPairingTranscript f).isSome = true := by
  rw [buildPairingTranscript, if_pos hf.secret, if_pos hf.publicRaw]
  refine isSome_concat ?_
  have hdigits := isBase64Url_of_validateB64u32 hf.secret
  have hlength : f.secret.length = 43 := by
    have h := hdigits
    simp only [isBase64Url, Bool.and_eq_true, decide_eq_true_eq] at h
    exact h.1
  have hversion := length_le_of_isSemVer hf.protocolVersion
  simp only [PairingTranscriptFields.parts, List.forall_mem_cons, List.not_mem_nil,
    IsEmpty.forall_iff, implies_true, and_true]
  exact ⟨by decide, isSome_lp (isAsciiText_of_isBase64Url hdigits) (by omega), rfl,
    isSome_lp (isAsciiText_of_canonical hf.serverOrigin) horigin,
    isSome_lp (isAsciiText_of_isSemVer hf.protocolVersion) (by omega)⟩

/-- A handshake on the local port. -/
def localFields : TranscriptFields where
  challengeId := js "c-1"
  nonceRaw := List.replicate 32 7
  agentId := js "a-1"
  keyId := js "k-1"
  protocolVersion := js "2.0.0"
  tenantId := js "t-1"
  serverOrigin := js "ws://[::1]:8787"

theorem valid_localFields (idna : Idna) : localFields.Valid idna where
  challengeId := by decide
  nonceRaw := by decide
  agentId := by decide
  keyId := by decide
  protocolVersion := by decide
  tenantId := by decide
  serverOrigin := rfl

example (idna : Idna) : (buildTranscript localFields).isSome = true :=
  isSome_buildTranscript (valid_localFields idna) (by decide)

/-! ### The same transcript -/

theorem cutSame_lp (s t : JsString) : CutSame (lp s) (lp t) := cutSame_prefixed _ _

theorem eq_of_lp {s t : JsString} (hs : IsAsciiText s) (ht : IsAsciiText t)
    (h : ∃ x, lp s = some x ∧ lp t = some x) : s = t := by
  obtain ⟨x, hx, hx'⟩ := h
  exact utf8Encode_injective hs ht (prefixed_injective hx hx')

/-- **A transcript has one reading.** -/
theorem buildTranscript_injective {idna : Idna} {f g : TranscriptFields} {t : List UInt8}
    (hf : f.Valid idna) (hg : g.Valid idna) (h : buildTranscript f = some t)
    (h' : buildTranscript g = some t) : f = g := by
  have hcut : List.Forall₂ CutSame f.parts g.parts := by
    refine .cons (cutSame_lp _ _) (.cons (cutSame_lp _ _) (.cons ?_ (.cons (cutSame_lp _ _)
      (.cons (cutSame_lp _ _) (.cons (cutSame_lp _ _) (.cons (cutSame_lp _ _)
        (.cons (cutSame_lp _ _) (.cons (cutSame_lp _ _) .nil))))))))
    exact cutSame_of_length (hf.nonceRaw.trans hg.nonceRaw.symm)
  have hparts := parts_eq_of_concat_eq hcut h h'
  simp only [TranscriptFields.parts, List.forall₂_cons, List.forall₂_nil_left_iff, and_true] at hparts
  obtain ⟨-, hchallenge, ⟨nonce, hnonce, hnonce'⟩, hagent, hkey, hversion, -, htenant, horigin⟩ := hparts
  have hfields : f.nonceRaw = g.nonceRaw :=
    (Option.some.inj hnonce).trans (Option.some.inj hnonce').symm
  have hchallenge := eq_of_lp (isAsciiText_of_isAuthId hf.challengeId)
    (isAsciiText_of_isAuthId hg.challengeId) hchallenge
  have hagent := eq_of_lp (isAsciiText_of_isAuthId hf.agentId) (isAsciiText_of_isAuthId hg.agentId)
    hagent
  have hkey := eq_of_lp (isAsciiText_of_isAuthId hf.keyId) (isAsciiText_of_isAuthId hg.keyId) hkey
  have hversion := eq_of_lp (isAsciiText_of_isSemVer hf.protocolVersion)
    (isAsciiText_of_isSemVer hg.protocolVersion) hversion
  have htenant := eq_of_lp (isAsciiText_of_tenantId hf.tenantId) (isAsciiText_of_tenantId hg.tenantId)
    htenant
  have horigin := eq_of_lp (isAsciiText_of_canonical hf.serverOrigin)
    (isAsciiText_of_canonical hg.serverOrigin) horigin
  cases f
  cases g
  simp only [TranscriptFields.mk.injEq]
  exact ⟨hchallenge, hfields, hagent, hkey, hversion, htenant, horigin⟩

theorem buildPairingTranscript_eq_some {f : PairingTranscriptFields} {t : List UInt8}
    (h : buildPairingTranscript f = some t) : concat f.parts = some t := by
  unfold buildPairingTranscript at h
  obtain ⟨-, h⟩ := Option.ite_none_right_eq_some.mp h
  obtain ⟨-, h⟩ := Option.ite_none_right_eq_some.mp h
  exact h

/-- **And so has the transcript of a pairing.** -/
theorem buildPairingTranscript_injective {idna : Idna} {f g : PairingTranscriptFields}
    {t : List UInt8} (hf : f.Valid idna) (hg : g.Valid idna)
    (h : buildPairingTranscript f = some t) (h' : buildPairingTranscript g = some t) : f = g := by
  have hcut : List.Forall₂ CutSame f.parts g.parts := by
    refine .cons (cutSame_lp _ _) (.cons (cutSame_lp _ _) (.cons ?_ (.cons (cutSame_lp _ _)
      (.cons (cutSame_lp _ _) .nil))))
    exact cutSame_of_length (hf.publicRaw.trans hg.publicRaw.symm)
  have hsecretAscii : ∀ {p : PairingTranscriptFields}, p.Valid idna → IsAsciiText p.secret := by
    intro p hp
    exact isAsciiText_of_isBase64Url (isBase64Url_of_validateB64u32 hp.secret)
  have hparts := parts_eq_of_concat_eq hcut (buildPairingTranscript_eq_some h)
    (buildPairingTranscript_eq_some h')
  simp only [PairingTranscriptFields.parts, List.forall₂_cons, List.forall₂_nil_left_iff,
    and_true] at hparts
  obtain ⟨-, hsecret, ⟨key, hkey, hkey'⟩, horigin, hversion⟩ := hparts
  have hpublic : f.publicRaw = g.publicRaw := (Option.some.inj hkey).trans (Option.some.inj hkey').symm
  have hsecret := eq_of_lp (hsecretAscii hf) (hsecretAscii hg) hsecret
  have horigin := eq_of_lp (isAsciiText_of_canonical hf.serverOrigin)
    (isAsciiText_of_canonical hg.serverOrigin) horigin
  have hversion := eq_of_lp (isAsciiText_of_isSemVer hf.protocolVersion)
    (isAsciiText_of_isSemVer hg.protocolVersion) hversion
  cases f
  cases g
  simp only [PairingTranscriptFields.mk.injEq]
  exact ⟨hsecret, hpublic, horigin, hversion⟩

/-- **No transcript is one of a handshake and of a pairing.** -/
theorem transcripts_disjoint {f : TranscriptFields} {g : PairingTranscriptFields} {t : List UInt8}
    (h : buildTranscript f = some t) (h' : buildPairingTranscript g = some t) : False := by
  obtain ⟨x, y, hx, hx', -, -⟩ := head_eq_of_concat_eq (cutSame_lp domainTag pairingDomainTag) h
    (buildPairingTranscript_eq_some h')
  have htags : domainTag = pairingDomainTag := by
    refine eq_of_lp ?_ ?_ ⟨x, hx, hx'⟩
    · unfold IsAsciiText
      decide
    · unfold IsAsciiText
      decide
  exact absurd htags (by decide)

/-- A handshake with the nonce of a challenge. -/
def TranscriptFields.withNonce (f : TranscriptFields) (nonce : JsString) : TranscriptFields :=
  { f with nonceRaw := fromBase64Url nonce }

/-- What a signature over a transcript can be valid for. -/
structure TranscriptsUnambiguous (idna : Idna) : Prop where
  handshake : Set.InjOn buildTranscript { f | f.Valid idna ∧ (buildTranscript f).isSome }
  pairing : Set.InjOn buildPairingTranscript
    { f | f.Valid idna ∧ (buildPairingTranscript f).isSome }
  disjoint : Disjoint { t | ∃ f : TranscriptFields, f.Valid idna ∧ buildTranscript f = some t }
    { t | ∃ f : PairingTranscriptFields, f.Valid idna ∧ buildPairingTranscript f = some t }
  /-- Whatever else the two handshakes are, two nonces that differ give two transcripts. -/
  nonce : ∀ f g : TranscriptFields, f.Valid idna → g.Valid idna → ∀ s s' : JsString,
    isChallengeNonce s = true → isChallengeNonce s' = true → s ≠ s' →
      ∀ t, buildTranscript (f.withNonce s) = some t → buildTranscript (g.withNonce s') ≠ some t

theorem TranscriptFields.Valid.withNonce {idna : Idna} {f : TranscriptFields} (hf : f.Valid idna)
    {s : JsString} (hs : isChallengeNonce s = true) : (f.withNonce s).Valid idna :=
  { hf with nonceRaw := length_of_isChallengeNonce hs }

/-- **A signature is valid for one handshake or for one pairing.** -/
theorem transcripts_unambiguous (idna : Idna) : TranscriptsUnambiguous idna := by
  refine ⟨?_, ?_, ?_, ?_⟩
  · rintro f ⟨hf, hsome⟩ g ⟨hg, -⟩ h
    obtain ⟨t, ht⟩ := Option.isSome_iff_exists.mp hsome
    exact buildTranscript_injective hf hg ht (h ▸ ht)
  · rintro f ⟨hf, hsome⟩ g ⟨hg, -⟩ h
    obtain ⟨t, ht⟩ := Option.isSome_iff_exists.mp hsome
    exact buildPairingTranscript_injective hf hg ht (h ▸ ht)
  · rw [Set.disjoint_left]
    rintro t ⟨f, -, hf⟩ ⟨g, -, hg⟩
    exact transcripts_disjoint hf hg
  · intro f g hf hg s s' hs hs' hne t ht ht'
    have hsame := buildTranscript_injective (hf.withNonce hs) (hg.withNonce hs') ht ht'
    exact hne (isCanonical32_injective hs hs' (congrArg TranscriptFields.nonceRaw hsame))

end HuginAgent
