/-
The relay's side of the handshake, `mock-relay/server.ts`.

The relay sends every connection a challenge of its own and answers a `hello` on it.  It knows who
may come from a record, and what it verifies it puts together from the challenge it has sent and
the record; of the message it takes the version, and the two ids only where they are those of the
record.  A `hello` is judged first, check by check in the order of the source (`judge`), and what
becomes of it is one step (`onHello`).

What comes after the handshake, the acknowledgements and the hooks of the tests, is left out: none
of it changes what is here.
-/
import HuginAgent.Conn.Signing
import HuginAgent.Pairing.Server
import HuginAgent.Relay.Hello

namespace HuginAgent

/-- A pairing record; its tenant and its origin are never read from the wire. -/
structure PairingRecord where
  agentId : JsString
  keyId : JsString
  publicKeyHex : JsString
  tenantId : JsString
  serverOrigin : JsString
deriving DecidableEq

/-- `Buffer.from(s, "hex")`: it ends before the first pair of units that are no digits. -/
def fromHex : JsString → List UInt8
  | u :: v :: rest =>
      match hexVal u, hexVal v with
      | some a, some b => (16 * a + b).toUInt8 :: fromHex rest
      | _, _ => []
  | _ => []

inductive HandshakeRejectCode
  | expiredChallenge
  | agentUnknown
  | badSignature
deriving DecidableEq

def HandshakeRejectCode.text : HandshakeRejectCode → JsString
  | expiredChallenge => js "expired_challenge"
  | agentUnknown => js "agent_unknown"
  | badSignature => js "bad_signature"

inductive VerifyResult
  | ok
  | rejected (code : HandshakeRejectCode) (message : String)
  /-- `buildTranscript` throws. -/
  | threw
deriving DecidableEq

/-- The fields of the transcript that the relay verifies. -/
def PairingRecord.transcriptFields (record : PairingRecord) (hello : Hello)
    (issued : AuthChallenge) : TranscriptFields where
  challengeId := issued.challengeId
  nonceRaw := fromBase64Url issued.nonce
  agentId := hello.agentId
  keyId := hello.keyId
  protocolVersion := hello.protocolVersion
  tenantId := record.tenantId
  serverOrigin := record.serverOrigin

def verifyHello (host : PairingHost) (hello : Hello) (issued : AuthChallenge)
    (record : PairingRecord) : VerifyResult :=
  if validateTenantId record.tenantId = false ∨
      canonicalizeServerOrigin host.idna record.serverOrigin ≠ some record.serverOrigin then
    .rejected .agentUnknown "pairing record has an invalid tenant_id or non-canonical server_origin"
  else if hello.challengeId ≠ issued.challengeId then
    .rejected .expiredChallenge "unknown or expired challenge_id"
  else if hello.agentId ≠ record.agentId ∨ hello.keyId ≠ record.keyId then
    .rejected .agentUnknown "no registered key for (agent_id, key_id)"
  else
    let publicRaw := fromHex record.publicKeyHex
    if publicRaw.length ≠ 32 then
      .rejected .agentUnknown "registered public key is not 32 bytes"
    else
      match buildTranscript (record.transcriptFields hello issued) with
      | none => .threw
      | some transcript =>
          if verifyTranscript host.verify publicRaw transcript hello.signature then .ok
          else .rejected .badSignature "Ed25519 signature does not verify over the transcript"

/-! ### The relay -/

/-- `PROTOCOL_VERSION`. -/
def protocolVersionV1 : JsString := js "1.0.0"

/-- `PROTOCOL_VERSION_V2`. -/
def protocolVersionV2 : JsString := js "2.0.0"

/-- `LIMITS.HEARTBEAT_INTERVAL_MS`. -/
def heartbeatIntervalMsDefault : Nat := 15000

structure MockRelayOpts where
  heartbeatIntervalMs : Option Nat
  supportedVersions : Option (List JsString)
  forceNegotiatedVersion : Option JsString
  forceEpoch : Option Nat
  nonce : Option JsString
  resumeFor : Option (Hello → List ResumeDirective)
  stallHandshake : Bool
  prematureAcceptEpoch : Option Nat
  /-- What is forced is a version. -/
  forcedOk : ∀ version, forceNegotiatedVersion = some version → isSemVer version = true

namespace MockRelayOpts

def supported (opts : MockRelayOpts) : List JsString :=
  opts.supportedVersions.getD [protocolVersionV1, protocolVersionV2]

def heartbeat (opts : MockRelayOpts) : Nat :=
  opts.heartbeatIntervalMs.getD heartbeatIntervalMsDefault

end MockRelayOpts

/-- What the relay sends during a handshake. -/
inductive RelayMsg
  | challenge (challenge : AuthChallenge)
  | accepted (negotiatedVersion : JsString) (connectionEpoch heartbeatIntervalMs : Nat)
      (resume : List ResumeDirective)
  | rejected (code message : JsString)

/-- A connection: the challenge it was sent, and the two variables of its handler. -/
structure RelayConn where
  issued : AuthChallenge
  authed : Bool
  v2 : Bool

/-- The relay and its connections, under whatever they are known by. -/
structure MockRelay (ι : Type) where
  epoch : Nat
  verifyRecord : Option PairingRecord
  conns : ι → Option RelayConn

/-- Why no version was negotiated. -/
def versionRefusal (agentVersion : JsString) (serverSupported : List JsString) : JsString :=
  if isSemVer agentVersion = false then
    js "malformed agent version \"" ++ agentVersion ++ js "\""
  else if (preOf agentVersion).isSome then
    js "prerelease " ++ agentVersion ++ js " requires exact server support"
  else
    js "stable major v" ++ majorOf agentVersion ++ js " not in server-supported \x7b" ++
      (js ", ").intercalate serverSupported ++ js "\x7d"

/-- What a `hello` comes to. -/
inductive HelloOutcome
  /-- The handshake is stalled, or it is a second one, or the handler throws. -/
  | ignored
  | rejected (code message : JsString)
  | accepted (version : JsString)

namespace MockRelay

variable {ι : Type} [DecidableEq ι] (host : PairingHost) (isIso : JsString → Bool)
  (opts : MockRelayOpts)

def fresh (record : Option PairingRecord) : MockRelay ι := ⟨0, record, fun _ => none⟩

def setVerifyAuth (s : MockRelay ι) (record : PairingRecord) : MockRelay ι :=
  { s with verifyRecord := some record }

/-- A new connection, with its id and 32 random bytes. -/
def handleConnection (s : MockRelay ι) (i : ι) (challengeId : JsString) (random : Seed) :
    MockRelay ι × List RelayMsg :=
  let issued : AuthChallenge := ⟨challengeId, opts.nonce.getD (toBase64Url random.toList)⟩
  ({ s with conns := Function.update s.conns i (some ⟨issued, false, false⟩) },
    .challenge issued ::
      (opts.prematureAcceptEpoch.map fun epoch =>
        .accepted protocolVersionV1 epoch opts.heartbeat []).toList)

/-- The checks on a `hello`. -/
def judge (s : MockRelay ι) (c : RelayConn) (m : Hello) : HelloOutcome :=
  if opts.stallHandshake then .ignored
  else if c.authed then .ignored
  else
    match negotiateVersion m.protocolVersion opts.supported with
    | none => .rejected (js "unsupported_version") (versionRefusal m.protocolVersion opts.supported)
    | some version =>
        match s.verifyRecord with
        | none => .accepted version
        | some record =>
            match verifyHello host m c.issued record with
            | .ok => .accepted version
            | .rejected code message => .rejected code.text (js message)
            | .threw => .ignored

/-- The number of the connection that is accepted next. -/
def nextEpoch (s : MockRelay ι) : Nat := opts.forceEpoch.getD (s.epoch + 1)

/-- The version that is sent. -/
def acceptedVersion (version : JsString) : JsString := opts.forceNegotiatedVersion.getD version

def onHello (s : MockRelay ι) (i : ι) (c : RelayConn) (m : Hello) : MockRelay ι × List RelayMsg :=
  match s.judge host opts c m with
  | .ignored => (s, [])
  | .rejected code message => (s, [.rejected code message])
  | .accepted version =>
      let acceptedVersion := acceptedVersion opts version
      ({ s with
          epoch := if opts.forceEpoch.isSome then s.epoch else s.epoch + 1
          conns := Function.update s.conns i
            (some { c with authed := true, v2 := isProtocolV2 acceptedVersion }) },
        [.accepted acceptedVersion (s.nextEpoch opts) opts.heartbeat
          ((opts.resumeFor.map fun resumeFor => resumeFor m).getD [])])

/-- The `message` event of a socket, as far as it is about the handshake. -/
def onMessage (s : MockRelay ι) (i : ι) (raw : List UInt8) : MockRelay ι × List RelayMsg :=
  match s.conns i, Hello.decodeHello host.number isIso raw with
  | some c, some m => s.onHello host opts i c m
  | _, _ => (s, [])

end MockRelay

/-! ### What is verified -/

section

variable {host : PairingHost} {hello : Hello} {issued : AuthChallenge} {record : PairingRecord}

/-- What a `hello` that verifies is checked for. -/
structure Verified (host : PairingHost) (hello : Hello) (issued : AuthChallenge)
    (record : PairingRecord) : Prop where
  tenantId : validateTenantId record.tenantId = true
  serverOrigin : canonicalizeServerOrigin host.idna record.serverOrigin = some record.serverOrigin
  challengeId : hello.challengeId = issued.challengeId
  agentId : hello.agentId = record.agentId
  keyId : hello.keyId = record.keyId
  publicKey : (fromHex record.publicKeyHex).length = 32
  signed : ∃ transcript, buildTranscript (record.transcriptFields hello issued) = some transcript ∧
    verifyTranscript host.verify (fromHex record.publicKeyHex) transcript hello.signature = true

/-- **A `hello` verifies if it passes every check.** -/
theorem verifyHello_eq_ok_iff :
    verifyHello host hello issued record = .ok ↔ Verified host hello issued record := by
  unfold verifyHello
  constructor
  · intro h
    by_cases hrecord : validateTenantId record.tenantId = false ∨
        canonicalizeServerOrigin host.idna record.serverOrigin ≠ some record.serverOrigin
    · rw [if_pos hrecord] at h
      cases h
    rw [if_neg hrecord] at h
    by_cases hchallenge : hello.challengeId ≠ issued.challengeId
    · rw [if_pos hchallenge] at h
      cases h
    rw [if_neg hchallenge] at h
    by_cases hids : hello.agentId ≠ record.agentId ∨ hello.keyId ≠ record.keyId
    · rw [if_pos hids] at h
      cases h
    rw [if_neg hids] at h
    by_cases hkey : (fromHex record.publicKeyHex).length ≠ 32
    · rw [if_pos hkey] at h
      cases h
    rw [if_neg hkey] at h
    rw [not_or, Bool.not_eq_false, not_not] at hrecord
    rw [not_or, not_not, not_not] at hids
    cases ht : buildTranscript (record.transcriptFields hello issued) with
    | none =>
        rw [ht] at h
        cases h
    | some transcript =>
        simp only [ht] at h
        by_cases hverify : verifyTranscript host.verify (fromHex record.publicKeyHex) transcript
            hello.signature = true
        · exact ⟨hrecord.1, hrecord.2, not_not.mp hchallenge, hids.1, hids.2, not_not.mp hkey,
            transcript, ht, hverify⟩
        · rw [if_neg hverify] at h
          cases h
  · intro h
    obtain ⟨transcript, ht, hverify⟩ := h.signed
    rw [if_neg (by simp [h.tenantId, h.serverOrigin]), if_neg (not_not.mpr h.challengeId),
      if_neg (by simp [h.agentId, h.keyId]), if_neg (not_not.mpr h.publicKey), ht]
    exact if_pos hverify

/-- **What the relay verifies is in order.** -/
theorem Verified.valid (h : Verified host hello issued record)
    (hnonce : isChallengeNonce issued.nonce = true) :
    (record.transcriptFields hello issued).Valid host.idna where
  challengeId := by
    show isAuthId issued.challengeId = true
    rw [← h.challengeId]
    exact hello.challengeIdOk
  nonceRaw := length_of_isChallengeNonce hnonce
  agentId := hello.agentIdOk
  keyId := hello.keyIdOk
  protocolVersion := hello.protocolVersionOk
  tenantId := h.tenantId
  serverOrigin := h.serverOrigin

/-- **A daemon whose transcript the relay verifies was asked by this relay, and is configured as
the record says.** -/
theorem Verified.of_transcript (h : Verified host hello issued record)
    (hnonce : isChallengeNonce issued.nonce = true) {cfg : DeviceConfig}
    {challenge : AuthChallenge} (hchallenge : isChallengeNonce challenge.nonce = true)
    {transcript : List UInt8}
    (hrelay : buildTranscript (record.transcriptFields hello issued) = some transcript)
    (hdaemon : cfg.transcript? host.idna challenge = some transcript) :
    challenge = issued ∧ cfg.agentId = record.agentId ∧ cfg.keyId = record.keyId ∧
      cfg.tenantId = record.tenantId ∧ cfg.serverUrl = record.serverOrigin ∧
      cfg.protocolVersion = hello.protocolVersion := by
  have hraw : (cfg.transcriptFields challenge cfg.serverUrl).nonceRaw.length = 32 := by
    exact length_of_isChallengeNonce hchallenge
  have hsame := eq_of_buildTranscript (h.valid hnonce) hraw hrelay
    (DeviceConfig.transcript?_eq_some hdaemon)
  simp only [PairingRecord.transcriptFields, DeviceConfig.transcriptFields,
    TranscriptFields.mk.injEq] at hsame
  obtain ⟨hid, hbytes, hagent, hkey, hversion, htenant, horigin⟩ := hsame
  have hnonces := isCanonical32_injective hnonce hchallenge hbytes
  refine ⟨?_, hagent.symm.trans h.agentId, hkey.symm.trans h.keyId, htenant.symm, horigin.symm,
    hversion.symm⟩
  cases challenge
  cases issued
  simp only [AuthChallenge.mk.injEq]
  exact ⟨hid.symm, hnonces.symm⟩

end

end HuginAgent
