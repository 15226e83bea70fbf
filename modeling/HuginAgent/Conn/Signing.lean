/-
What a handshake signs, `src/conn/handshake.ts`.

The daemon signs what it is told, the id and the nonce of a challenge, together with what it knows
itself: its ids, its version, its tenant, and the origin it has dialed.  Whoever reads the
signature puts the transcript together from what he knows, and it verifies where the two are the
same bytes.  Nothing needs to be known of the daemon's side for that: a transcript of fields that
are in order is the transcript of no others, whatever they are (`eq_of_buildTranscript`).
-/
import HuginAgent.Auth.DevOrigin
import HuginAgent.Conn.Hello
import HuginAgent.Protocol.Ed25519
import HuginAgent.Protocol.Inbound

namespace HuginAgent

/-- What the signature speaks of, of a configuration that has passed its schema and of a signer. -/
structure DeviceConfig extends AgentConfig where
  serverUrl : JsString
  allowDevOrigin : Bool
  tenantId : JsString
  /-- `signer.keyId`. -/
  keyId : JsString
  tenantIdOk : validateTenantId tenantId = true
  keyIdOk : isAuthId keyId = true

namespace DeviceConfig

variable (idna : Idna) (cfg : DeviceConfig)

/-- The handshake throws on an origin that is not canonical. -/
def origin? : Option JsString :=
  if cfg.allowDevOrigin then canonicalizeDevOrigin idna cfg.serverUrl
  else canonicalizeServerOrigin idna cfg.serverUrl

def transcriptFields (challenge : AuthChallenge) (origin : JsString) : TranscriptFields where
  challengeId := challenge.challengeId
  nonceRaw := fromBase64Url challenge.nonce
  agentId := cfg.agentId
  keyId := cfg.keyId
  protocolVersion := cfg.protocolVersion
  tenantId := cfg.tenantId
  serverOrigin := origin

/-- What is signed, unless the handshake throws. -/
def transcript? (challenge : AuthChallenge) : Option (List UInt8) :=
  (cfg.origin? idna).bind fun origin => buildTranscript (cfg.transcriptFields challenge origin)

variable {idna cfg}

/-- Neither policy changes the origin that is configured. -/
theorem origin?_eq {origin : JsString} (h : cfg.origin? idna = some origin) :
    origin = cfg.serverUrl := by
  unfold origin? at h
  by_cases hdev : cfg.allowDevOrigin = true
  · rw [if_pos hdev, canonicalizeDevOrigin] at h
    cases hurl : newUrl idna cfg.serverUrl with
    | failure =>
        rw [hurl] at h
        cases h
    | otherScheme =>
        rw [hurl] at h
        cases h
    | url url =>
        rw [hurl] at h
        exact (canonicalizeDevUrl_eq_some_iff.mp h).1
  · rw [if_neg hdev] at h
    exact (canonicalizeServerOrigin_eq_some_iff.mp h).1

/-- **The daemon signs the origin that it is configured for.** -/
theorem transcript?_eq_some {challenge : AuthChallenge} {t : List UInt8}
    (h : cfg.transcript? idna challenge = some t) :
    buildTranscript (cfg.transcriptFields challenge cfg.serverUrl) = some t := by
  obtain ⟨origin, horigin, ht⟩ := Option.bind_eq_some_iff.mp h
  rw [← origin?_eq horigin]
  exact ht

end DeviceConfig

/-! ### What is read as ASCII was written so -/

theorem lt_of_utf8Point {n : Nat} (h : ∀ b ∈ utf8Point n, b < 128) (hn : n < 0x110000) :
    n < 128 := by
  by_contra hlarge
  have hfirst : ∀ m, 0xC0 ≤ m → m < 256 → m.toUInt8 ∈ utf8Point n → False := by
    intro m hge hlt hmem
    have hbyte : m.toUInt8.toNat < 128 := UInt8.lt_iff_toNat_lt.mp (h _ hmem)
    rw [Nat.toUInt8, UInt8.toNat_ofNat_of_lt' hlt] at hbyte
    omega
  unfold utf8Point at hfirst
  by_cases h1 : n < 0x80
  · exact hlarge h1
  by_cases h2 : n < 0x800
  · refine hfirst (0xC0 + n / 0x40) (by omega) (by omega) ?_
    rw [if_neg h1, if_pos h2]
    exact List.mem_cons_self
  by_cases h3 : n < 0x10000
  · refine hfirst (0xE0 + n / 0x1000) (by omega) (by omega) ?_
    rw [if_neg h1, if_neg h2, if_pos h3]
    exact List.mem_cons_self
  · refine hfirst (0xF0 + n / 0x40000) (by omega) (by omega) ?_
    rw [if_neg h1, if_neg h2, if_neg h3]
    exact List.mem_cons_self

/-- A unit that is written in ASCII bytes; what stands for a lone surrogate is not. -/
theorem isAscii_of_utf8Point {u : UInt16}
    (h : ∀ b ∈ utf8Point (if isHighSurrogate u || isLowSurrogate u then 0xFFFD else u.toNat),
      b < 128) : isAscii u = true := by
  by_cases hlone : (isHighSurrogate u || isLowSurrogate u) = true
  · rw [if_pos hlone] at h
    exact absurd (lt_of_utf8Point h (by decide)) (by decide)
  · rw [if_neg hlone] at h
    exact isAscii_of_lt (lt_of_utf8Point h (Nat.lt_trans u.toNat_lt (by decide)))

theorem isAsciiText_of_utf8Encode : ∀ {t : JsString}, (∀ b ∈ utf8Encode t, b < 128) → IsAsciiText t
  | [], _ => List.forall_mem_nil _
  | [u], h => by
      rw [utf8Encode] at h
      exact List.forall_mem_singleton.mpr (isAscii_of_utf8Point h)
  | u :: v :: rest, h => by
      rw [utf8Encode] at h
      by_cases hpair : (isHighSurrogate u && isLowSurrogate v) = true
      · rw [if_pos hpair, List.forall_mem_append] at h
        have hlow := lt_of_utf8Point h.1 (by
          rw [Bool.and_eq_true, isHighSurrogate_iff, isLowSurrogate_iff] at hpair
          unfold pairPoint
          omega)
        unfold pairPoint at hlow
        omega
      · rw [if_neg hpair, List.forall_mem_append] at h
        exact List.forall_mem_cons.mpr ⟨isAscii_of_utf8Point h.1, isAsciiText_of_utf8Encode h.2⟩

theorem utf8Encode_ascii_lt {s : JsString} (hs : IsAsciiText s) : ∀ b ∈ utf8Encode s, b < 128 := by
  rw [utf8Encode_ascii hs, List.forall_mem_map]
  intro u hu
  have hlt := isAscii_iff.mp (hs u hu)
  have hsize : u.toNat < UInt8.size := Nat.lt_trans hlt (by decide)
  rw [UInt8.lt_iff_toNat_lt, Nat.toUInt8, UInt8.toNat_ofNat_of_lt' hsize]
  exact hlt

/-- **A text in ASCII is the only one of its bytes.** -/
theorem eq_of_utf8Encode {s t : JsString} (hs : IsAsciiText s) (h : utf8Encode s = utf8Encode t) :
    s = t :=
  utf8Encode_injective hs (isAsciiText_of_utf8Encode (h ▸ utf8Encode_ascii_lt hs)) h

theorem eq_of_lp_left {s t : JsString} (hs : IsAsciiText s)
    (h : ∃ x, lp s = some x ∧ lp t = some x) : s = t := by
  obtain ⟨x, hx, hx'⟩ := h
  exact eq_of_utf8Encode hs (Framing.prefixed_injective hx hx')

/-- **A transcript of fields that are in order is one of no others.** -/
theorem eq_of_buildTranscript {idna : Idna} {f g : TranscriptFields} {t : List UInt8}
    (hf : f.Valid idna) (hg : g.nonceRaw.length = 32) (h : buildTranscript f = some t)
    (h' : buildTranscript g = some t) : f = g := by
  have hcut : List.Forall₂ Framing.CutSame f.parts g.parts := by
    refine .cons (cutSame_lp _ _) (.cons (cutSame_lp _ _) (.cons ?_ (.cons (cutSame_lp _ _)
      (.cons (cutSame_lp _ _) (.cons (cutSame_lp _ _) (.cons (cutSame_lp _ _)
        (.cons (cutSame_lp _ _) (.cons (cutSame_lp _ _) .nil))))))))
    exact Framing.cutSame_of_length (hf.nonceRaw.trans hg.symm)
  have hparts := Framing.parts_eq_of_concat_eq hcut h h'
  simp only [TranscriptFields.parts, List.forall₂_cons, List.forall₂_nil_left_iff, and_true] at hparts
  obtain ⟨-, hchallenge, ⟨nonce, hnonce, hnonce'⟩, hagent, hkey, hversion, -, htenant, horigin⟩ := hparts
  have hraw : f.nonceRaw = g.nonceRaw :=
    (Option.some.inj hnonce).trans (Option.some.inj hnonce').symm
  have hchallenge := eq_of_lp_left (isAsciiText_of_isAuthId hf.challengeId) hchallenge
  have hagent := eq_of_lp_left (isAsciiText_of_isAuthId hf.agentId) hagent
  have hkey := eq_of_lp_left (isAsciiText_of_isAuthId hf.keyId) hkey
  have hversion := eq_of_lp_left (isAsciiText_of_isSemVer hf.protocolVersion) hversion
  have htenant := eq_of_lp_left (isAsciiText_of_tenantId hf.tenantId) htenant
  have horigin := eq_of_lp_left (isAsciiText_of_canonical hf.serverOrigin) horigin
  cases f
  cases g
  simp only [TranscriptFields.mk.injEq]
  exact ⟨hchallenge, hraw, hagent, hkey, hversion, htenant, horigin⟩

end HuginAgent
