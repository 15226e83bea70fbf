/-
A handshake between a daemon and a relay that knows it.

The daemon is the coroutine of `Daemon/Pump.lean`, from the dial on, and the relay the one of
`Relay/Server.lean`; between them goes what each has sent, in order and nothing lost.  If the
record of the relay is the daemon's and a version is negotiated, the two come to the end of the
handshake, and to the same end: the daemon is told the version and the epoch that the relay has
noted, and both have the same view of whether sessions may be spoken of.
-/
import HuginAgent.Daemon.Gating
import HuginAgent.Pairing.Completes
import HuginAgent.Relay.Authentic

namespace HuginAgent

/-! ### What the daemon makes of the relay's messages -/

/-- `TEXT_MAX`. -/
def textMax : Nat := 8192

/-- The schema of a message of the relay. -/
def RelayMsg.parsed : RelayMsg → Option MessageV2
  | .challenge issued => if issued.passes then some ⟨.authChallenge, issued⟩ else none
  | .accepted version epoch heartbeat resume =>
      if h : isSemVer version = true then
        if epoch ≤ maxSafeInteger ∧ (0 < heartbeat ∧ heartbeat ≤ maxSafeInteger) ∧
            resume.length ≤ arrayMax then
          some ⟨.helloAccepted, ⟨version, h, epoch, heartbeat, resume⟩⟩
        else none
      else none
  | .rejected code message =>
      if message.length ≤ textMax then some ⟨.helloRejected, ⟨code, message⟩⟩ else none

/-- The version that is negotiated is a version, and it is negotiated again alone. -/
theorem negotiateVersion_again {agentVersion version : JsString} {supported : List JsString}
    (h : negotiateVersion agentVersion supported = some version) :
    isSemVer version = true ∧ negotiateVersion agentVersion [version] = some version := by
  unfold negotiateVersion at h ⊢
  by_cases hagent : isSemVer agentVersion = false
  · rw [if_pos hagent] at h
    cases h
  rw [if_neg hagent] at h ⊢
  have hagain : ∀ p : JsString → Bool, (supported.filter fun v => isSemVer v).find? p =
      some version → isSemVer version = true ∧
        (List.filter (fun v => isSemVer v) [version]).find? p = some version := by
    intro p hp
    have hversion := (List.mem_filter.mp (List.mem_of_find?_eq_some hp)).2
    refine ⟨hversion, ?_⟩
    rw [List.filter_cons_of_pos hversion, List.find?_cons_of_pos (List.find?_some hp)]
  by_cases hpre : (preOf agentVersion).isSome = true
  · simp only [if_pos hpre] at h ⊢
    exact hagain _ h
  · simp only [if_neg hpre] at h ⊢
    exact hagain _ h

/-! ### The exchange -/

/-- Nothing of the relay is forced by a test. -/
structure MockRelayOpts.IsPlain (opts : MockRelayOpts) : Prop where
  version : opts.forceNegotiatedVersion = none
  epoch : opts.forceEpoch = none
  nonce : opts.nonce = none
  resume : opts.resumeFor = none
  stall : opts.stallHandshake = false
  premature : opts.prematureAcceptEpoch = none
  heartbeat : 0 < opts.heartbeat ∧ opts.heartbeat ≤ maxSafeInteger

/-- The record is the daemon's. -/
structure PairingRecord.Matches (record : PairingRecord) (cfg : DeviceConfig)
    (publicRaw : List UInt8) : Prop where
  agentId : record.agentId = cfg.agentId
  keyId : record.keyId = cfg.keyId
  tenantId : record.tenantId = cfg.tenantId
  serverOrigin : record.serverOrigin = cfg.serverUrl
  publicKey : fromHex record.publicKeyHex = publicRaw

/-- The `hello` that a daemon of this seed builds for a challenge. -/
structure Handshake.Signs {isIso : JsString → Bool} (host : PairingHost) (seed : Seed)
    (cfg : DeviceConfig) (challenge : AuthChallenge) (hs : Handshake isIso) : Prop where
  config : hs.config = cfg.toAgentConfig
  challengeId : hs.challengeId = challenge.challengeId
  keyId : hs.keyId = cfg.keyId
  signature : ∃ transcript, cfg.transcript? host.idna challenge = some transcript ∧
    hs.signature = toBase64Url (host.sign seed transcript)

/-- What the daemon has on its side of the exchange. -/
structure Dialing where
  dial : DialConfig
  k : Continuation
  reaction : Reaction
  /-- The bytes of the frames that come in. -/
  bytes : RelayMsg → Nat

namespace Dialing

variable (d : Dialing)

/-- A message of the relay comes in, and the coroutine goes on. -/
def hears (c : Connection) (m : RelayMsg) : Connection :=
  Machine.run (Connection.step d.dial) c [.frame ⟨d.bytes m, m.parsed⟩ d.reaction, .proceed d.k]

def hearsAll (c : Connection) (sent : List RelayMsg) : Connection := sent.foldl d.hears c

/-- The `hello` that is under way. -/
def helloOf (c : Connection) : Option JsObject :=
  match c.log.getLast? with
  | some (.helloSent hello) => some hello
  | _ => none

/-- A connection from the dial to the end of its handshake. -/
def exchange {ι : Type} [DecidableEq ι] (host : PairingHost) (isIso : JsString → Bool)
    (opts : MockRelayOpts) (s : MockRelay ι) (i : ι) (challengeId : JsString) (random : Seed)
    (c : Connection) : MockRelay ι × Connection :=
  let (s, sent) := s.handleConnection opts i challengeId random
  let c := d.hearsAll (Machine.run (Connection.step d.dial) c [.opened, .proceed d.k]) sent
  match helloOf c with
  | none => (s, c)
  | some hello =>
      let (s, sent) := s.onMessage host isIso opts i (utf8Encode (encodeOutbound hello))
      (s, (d.hearsAll c sent).proceed d.dial d.k)

end Dialing

section

variable {ι : Type} [DecidableEq ι] {host : PairingHost} {isIso : JsString → Bool}
  {opts : MockRelayOpts} {s : MockRelay ι} {cfg : DeviceConfig} {seed : Seed}

/-! ### The relay's side -/

/-- The relay lets in who signs what it expects. -/
theorem verified_of_signs (hlawful : host.IsLawful) {issued : AuthChallenge}
    {hs : Handshake isIso} (hsigns : hs.Signs host seed cfg issued) {record : PairingRecord}
    (hmatches : record.Matches cfg (host.publicRaw seed))
    (horigin : canonicalizeServerOrigin host.idna cfg.serverUrl = some cfg.serverUrl)
    (resume : ResumeState) :
    Verified host (Hello.ofHandshake hs resume) issued record := by
  obtain ⟨transcript, ht, hsignature⟩ := hsigns.signature
  have hagent : hs.config.agentId = cfg.agentId := congrArg AgentConfig.agentId hsigns.config
  have hversion : hs.config.protocolVersion = cfg.protocolVersion :=
    congrArg AgentConfig.protocolVersion hsigns.config
  refine ⟨?_, ?_, hsigns.challengeId, ?_, ?_, ?_, transcript, ?_, ?_⟩
  · rw [hmatches.tenantId]
    exact cfg.tenantIdOk
  · rw [hmatches.serverOrigin]
    exact horigin
  · exact hagent.trans hmatches.agentId.symm
  · exact hsigns.keyId.trans hmatches.keyId.symm
  · rw [hmatches.publicKey]
    exact hlawful.publicRaw seed
  · refine Eq.trans (congrArg buildTranscript ?_) (DeviceConfig.transcript?_eq_some ht)
    rw [PairingRecord.transcriptFields, DeviceConfig.transcriptFields, hmatches.tenantId,
      hmatches.serverOrigin]
    simp only [Hello.ofHandshake, hagent, hversion, hsigns.keyId]
  · show verifyTranscript host.verify _ transcript hs.signature = true
    rw [hmatches.publicKey, hsignature]
    exact verifyTranscript_toBase64Url (hlawful.publicRaw seed) (hlawful.sign seed transcript)
      (hlawful.verify seed transcript)

end

/-! ### The daemon's side -/

/-- A message of a handshake that fits a frame is decoded. -/
theorem decodeInbound_handshake {msg : MessageV2} (hdirection : msg.type.direction = .s2a)
    (hhandshake : msg.type.isHandshake = true) (hsession : msg.type.isSession = false) {n : Nat}
    (hn : n ≤ maxFrameBytes) (authed v2 : Bool) :
    decodeInbound ⟨n, some msg⟩ authed v2 = .ok msg := by
  have hparse : safeParse ⟨n, some msg⟩ v2 = some msg := by
    rw [safeParse, Option.filter_some, hsession, Bool.not_false, Bool.or_true, if_pos rfl]
  have hvalid : validateInbound msg authed = none := by
    rw [validateInbound, hdirection, hhandshake, if_neg (by decide), if_neg (by simp)]
  rw [decodeInbound, if_neg (Nat.not_lt.mpr hn), hparse]
  simp only [hvalid]

namespace Dialing

/-- The client that waits for the challenge. -/
def askingClient : RelayClient := (RelayClient.fresh.waitFor isChallenge).1

/-- The client that was given a message. -/
def given (client : RelayClient) (msg : MessageV2) : RelayClient :=
  { client with mail := (client.mail.deliver msg).1 }

/-- The client that waits for the answer to its hello. -/
def armedClient (challenge : AuthChallenge) : RelayClient :=
  ((given askingClient ⟨.authChallenge, challenge⟩).armForAccept.waitFor isReply).1

/-- The connection that waits for the challenge. -/
def asking (c : Connection) : Connection :=
  { c with client := askingClient, stage := .awaitingChallenge 0 }

/-- The connection that has answered the challenge. -/
def answering (c : Connection) (challenge : AuthChallenge) (hello : JsObject) : Connection :=
  { c with
    client := armedClient challenge
    stage := .awaitingReply 1
    log := c.log ++ [.arrived ⟨.authChallenge, challenge⟩] ++ [.helloSent hello] }

variable {d : Dialing} {c : Connection}

theorem dials (hstage : c.stage = .dialing) (hclient : c.client = .fresh) :
    Machine.run (Connection.step d.dial) c [.opened, .proceed d.k] = asking c := by
  obtain ⟨client, stage, running, lastEpoch, world, closed, log⟩ := c
  obtain rfl : client = .fresh := hclient
  obtain rfl : stage = .dialing := hstage
  rfl

theorem onFrame_challenge {challenge : AuthChallenge} {n : Nat} (hn : n ≤ maxFrameBytes) :
    askingClient.onFrame ⟨n, some ⟨.authChallenge, challenge⟩⟩ =
      (given askingClient ⟨.authChallenge, challenge⟩,
        some (⟨.authChallenge, challenge⟩, .taken ⟨0, isChallenge⟩)) := by
  have hadmits : askingClient.admits ⟨n, some ⟨.authChallenge, challenge⟩⟩ =
      some ⟨.authChallenge, challenge⟩ := by
    rw [RelayClient.admits, decodeInbound_handshake rfl rfl rfl hn]
    rfl
  rw [RelayClient.onFrame, hadmits]
  rfl

/-- **It answers the challenge.** -/
theorem hears_challenge {challenge : AuthChallenge} (hpasses : challenge.passes = true)
    (hbytes : d.bytes (.challenge challenge) ≤ maxFrameBytes) (hsends : d.k.sends = true)
    {hello : JsObject} (hhello : d.dial.signedHello challenge = some hello)
    (hclosed : c.closed = false) :
    d.hears (asking c) (.challenge challenge) = answering c challenge hello := by
  obtain ⟨client, stage, running, lastEpoch, world, closed, log⟩ := c
  obtain rfl : closed = false := hclosed
  have hparsed : (RelayMsg.challenge challenge).parsed = some ⟨.authChallenge, challenge⟩ :=
    if_pos hpasses
  rw [hears, hparsed, Machine.run_cons, Machine.run_cons, Machine.run_nil]
  simp only [asking, Connection.step, Connection.onFrame, onFrame_challenge hbytes]
  show Connection.sendHello d.dial _ d.k challenge = _
  rw [Connection.sendHello, hhello]
  simp only [hsends, if_true]
  rfl

/-- The client that has been accepted. -/
def acceptedClient (challenge : AuthChallenge) (accepted : HelloAccepted) : RelayClient :=
  given ((armedClient challenge).flip ⟨.helloAccepted, accepted⟩) ⟨.helloAccepted, accepted⟩

theorem onFrame_accepted {challenge : AuthChallenge} {accepted : HelloAccepted} {n : Nat}
    (hn : n ≤ maxFrameBytes) :
    (armedClient challenge).onFrame ⟨n, some ⟨.helloAccepted, accepted⟩⟩ =
      (acceptedClient challenge accepted,
        some (⟨.helloAccepted, accepted⟩, .taken ⟨1, isReply⟩)) := by
  have hadmits : (armedClient challenge).admits ⟨n, some ⟨.helloAccepted, accepted⟩⟩ =
      some ⟨.helloAccepted, accepted⟩ := by
    rw [RelayClient.admits, decodeInbound_handshake rfl rfl rfl hn]
    rfl
  rw [RelayClient.onFrame, hadmits]
  rfl

/-- **It takes the acceptance, if the version is one for it.** -/
theorem hears_accepted {challenge : AuthChallenge} {hello : JsObject} {m : RelayMsg}
    {accepted : HelloAccepted} (hparsed : m.parsed = some ⟨.helloAccepted, accepted⟩)
    (hbytes : d.bytes m ≤ maxFrameBytes)
    (hversion : negotiateVersion d.dial.protocolVersion [accepted.negotiatedVersion] =
      some accepted.negotiatedVersion) (hclosed : c.closed = false) :
    d.hears (answering c challenge hello) m =
      { c with
        client := acceptedClient challenge accepted
        stage := .shaken accepted
        log := (answering c challenge hello).log ++ [.arrived ⟨.helloAccepted, accepted⟩] ++
          [.negotiated accepted] } := by
  obtain ⟨client, stage, running, lastEpoch, world, closed, log⟩ := c
  obtain rfl : closed = false := hclosed
  rw [hears, hparsed, Machine.run_cons, Machine.run_cons, Machine.run_nil]
  simp only [answering, Connection.step, Connection.onFrame, onFrame_accepted hbytes]
  show Connection.negotiate d.dial _ accepted = _
  rw [Connection.negotiate, if_pos hversion]
  rfl

theorem helloOf_answering (c : Connection) (challenge : AuthChallenge) (hello : JsObject) :
    helloOf (answering c challenge hello) = some hello := by
  rw [helloOf, answering, List.getLast?_concat]

/-- **The session begins, if its epoch is later than the last one.** -/
theorem proceed_shaken {accepted : HelloAccepted} {challenge : AuthChallenge}
    (hstage : c.stage = .shaken accepted) (hclient : c.client = acceptedClient challenge accepted)
    (hrunning : c.running = true) (hepoch : c.lastEpoch < accepted.connectionEpoch)
    (hresume : accepted.resume = []) :
    (c.proceed d.dial d.k).stage = .pumping accepted ∧
      (c.proceed d.dial d.k).client.authed = true ∧
      (c.proceed d.dial d.k).client.v2 = isProtocolV2 accepted.negotiatedVersion ∧
      (c.proceed d.dial d.k).lastEpoch = accepted.connectionEpoch := by
  obtain ⟨client, stage, running, lastEpoch, world, closed, log⟩ := c
  obtain rfl : client = acceptedClient challenge accepted := hclient
  obtain rfl : stage = .shaken accepted := hstage
  obtain rfl : running = true := hrunning
  have hestablish : Connection.proceed d.dial
      ⟨acceptedClient challenge accepted, .shaken accepted, true, lastEpoch, world, closed, log⟩ d.k =
        Connection.resumeAndPump d.dial ⟨acceptedClient challenge accepted, .shaken accepted, true,
          accepted.connectionEpoch, world, closed, log ++ [.epochAccepted accepted]⟩ d.k accepted := by
    show Connection.establish d.dial _ d.k accepted = _
    rw [Connection.establish, if_neg (Int.not_le.mpr hepoch)]
    rfl
  rw [hestablish, Connection.resumeAndPump, Connection.directives, hresume]
  exact ⟨rfl, rfl, rfl, rfl⟩

end Dialing

/-! ### Both -/

section

variable {ι : Type} [DecidableEq ι] {host : PairingHost} {isIso : JsString → Bool}
  {opts : MockRelayOpts} {s : MockRelay ι} {cfg : DeviceConfig} {seed : Seed}

/-- The relay and the daemon at the end of a handshake. -/
structure Completed (s : MockRelay ι) (i : ι) (c : Connection) (issued : AuthChallenge)
    (version : JsString) (accepted : HelloAccepted) : Prop where
  pumping : c.stage = .pumping accepted
  version : accepted.negotiatedVersion = version
  epoch : accepted.connectionEpoch = s.epoch
  lastEpoch : c.lastEpoch = s.epoch
  authed : c.client.authed = true
  /-- The relay has authenticated the connection, and speaks of sessions where the daemon does. -/
  conn : s.conns i = some ⟨issued, true, c.client.v2⟩

/-- The acceptance of a relay that nothing is forced on. -/
def MockRelay.acceptance (opts : MockRelayOpts) (s : MockRelay ι) (version : JsString) : RelayMsg :=
  .accepted version (s.epoch + 1) opts.heartbeat []

/-- The relay that has sent a challenge. -/
def MockRelay.opened (s : MockRelay ι) (i : ι) (issued : AuthChallenge) : MockRelay ι :=
  { s with conns := Function.update s.conns i (some ⟨issued, false, false⟩) }

theorem handleConnection_plain (hplain : opts.IsPlain) (i : ι) (challengeId : JsString)
    (random : Seed) :
    s.handleConnection opts i challengeId random =
      (s.opened i ⟨challengeId, toBase64Url random.toList⟩,
        [.challenge ⟨challengeId, toBase64Url random.toList⟩]) := by
  rw [MockRelay.handleConnection, hplain.nonce, hplain.premature]
  rfl

theorem onMessage_plain (hplain : opts.IsPlain) {i : ι} {c : RelayConn} {raw : List UInt8}
    {m : Hello} {version : JsString} (hconn : s.conns i = some c)
    (hhello : Hello.decodeHello host.number isIso raw = some m)
    (hjudged : s.Judged host opts c m version) :
    s.onMessage host isIso opts i raw =
      ({ s with
          epoch := s.epoch + 1
          conns := Function.update s.conns i
            (some { c with authed := true, v2 := isProtocolV2 version }) },
        [s.acceptance opts version]) := by
  rw [MockRelay.onMessage, hconn, hhello]
  simp only [MockRelay.onHello, MockRelay.judge_eq_accepted_iff.mpr hjudged,
    MockRelay.acceptedVersion, MockRelay.nextEpoch, hplain.version, hplain.epoch, hplain.resume]
  rfl

omit [DecidableEq ι] in
theorem parsed_acceptance (hplain : opts.IsPlain) {version : JsString}
    (hversion : isSemVer version = true) (hsafe : s.epoch < maxSafeInteger) :
    (s.acceptance opts version).parsed =
      some ⟨.helloAccepted, ⟨version, hversion, s.epoch + 1, opts.heartbeat, []⟩⟩ := by
  rw [MockRelay.acceptance, RelayMsg.parsed, dif_pos hversion,
    if_pos ⟨hsafe, hplain.heartbeat, Nat.zero_le _⟩]

/-- **A daemon and a relay that knows it come to the same end of the handshake.** -/
theorem handshake_completes (hlawful : host.IsLawful) (hplain : opts.IsPlain) {i : ι}
    {challengeId : JsString} (hid : isAuthId challengeId = true) (random : Seed)
    (horigin : canonicalizeServerOrigin host.idna cfg.serverUrl = some cfg.serverUrl)
    (hrecord : ∀ record, s.verifyRecord = some record → record.Matches cfg (host.publicRaw seed))
    {version : JsString}
    (hversion : negotiateVersion cfg.protocolVersion opts.supported = some version)
    (hsafe : s.epoch < maxSafeInteger) {d : Dialing}
    (hdial : d.dial.protocolVersion = cfg.protocolVersion) (hsends : d.k.sends = true)
    {hs : Handshake isIso} {resume : ResumeState}
    (hsigns : hs.Signs host seed cfg ⟨challengeId, toBase64Url random.toList⟩)
    (hsendable : Hello.Sendable hs resume)
    (hhello : d.dial.signedHello ⟨challengeId, toBase64Url random.toList⟩ =
      some (helloMsg hs resume))
    (hchallengeBytes : d.bytes (.challenge ⟨challengeId, toBase64Url random.toList⟩) ≤ maxFrameBytes)
    (hacceptanceBytes : d.bytes (s.acceptance opts version) ≤ maxFrameBytes) {c : Connection}
    (hstage : c.stage = .dialing) (hclient : c.client = .fresh) (hclosed : c.closed = false)
    (hrunning : c.running = true) (hepoch : c.lastEpoch ≤ s.epoch) :
    ∃ accepted, Completed (d.exchange host isIso opts s i challengeId random c).1 i
      (d.exchange host isIso opts s i challengeId random c).2
      ⟨challengeId, toBase64Url random.toList⟩ version accepted := by
  obtain ⟨hsemVer, hagain⟩ := negotiateVersion_again hversion
  have hpasses : AuthChallenge.passes ⟨challengeId, toBase64Url random.toList⟩ = true := by
    rw [AuthChallenge.passes, hid, AuthWorld.isChallengeNonce_random]
    rfl
  -- The relay that has sent its challenge judges the hello.
  have hjudged : (s.opened i ⟨challengeId, toBase64Url random.toList⟩).Judged host opts
      ⟨⟨challengeId, toBase64Url random.toList⟩, false, false⟩ (Hello.ofHandshake hs resume)
      version := by
    refine ⟨hplain.stall, rfl, ?_, fun record hr => ?_⟩
    · rw [← hversion]
      exact congrArg (negotiateVersion · opts.supported)
        (congrArg AgentConfig.protocolVersion hsigns.config)
    · exact verified_of_signs hlawful hsigns (hrecord record hr) horigin resume
  have hanswer := onMessage_plain hplain (i := i) (Function.update_self ..)
    (Hello.decodeHello_helloMsg hlawful.number hsendable) hjudged
  have hheard := Dialing.hears_challenge hpasses hchallengeBytes hsends hhello hclosed
  have haccepted : d.hears (Dialing.answering c ⟨challengeId, toBase64Url random.toList⟩
      (helloMsg hs resume)) (s.acceptance opts version) = _ :=
    Dialing.hears_accepted (parsed_acceptance hplain hsemVer hsafe) hacceptanceBytes
      (by rw [hdial]; exact hagain) hclosed
  rw [Dialing.exchange, handleConnection_plain hplain]
  simp only [Dialing.dials hstage hclient, Dialing.hearsAll, List.foldl_cons, List.foldl_nil,
    hheard, Dialing.helloOf_answering, hanswer]
  obtain ⟨hpumping, hauthed, hv2, hlast⟩ := Dialing.proceed_shaken (d := d)
    (c := d.hears (Dialing.answering c ⟨challengeId, toBase64Url random.toList⟩
      (helloMsg hs resume)) (s.acceptance opts version))
    (by rw [haccepted]) (by rw [haccepted]) (by rw [haccepted]; exact hrunning)
    (by rw [haccepted]; exact Int.lt_add_one_of_le hepoch) rfl
  refine ⟨⟨version, hsemVer, s.epoch + 1, opts.heartbeat, []⟩, hpumping, rfl, rfl, hlast, hauthed, ?_⟩
  refine (Function.update_self ..).trans ?_
  exact congrArg some (congrArg (RelayConn.mk _ true) hv2.symm)

end

/-! ### The first connection -/

/-- Signatures verify, whatever was signed. -/
def completingHost : PairingHost :=
  { handshakeHost with
    verify := fun key transcript signature =>
      key = countingKey && signature = handshakeHost.sign countingSeed transcript }

theorem isLawful_completingHost : completingHost.IsLawful where
  publicRaw _ := rfl
  sha256 := Ceremony.isLawful_localHost.sha256
  sign _ transcript := by
    show (if transcript = localTranscript then localHelloSignature else localSignature).length = 64
    split <;> rfl
  verify _ transcript := by
    show (decide (countingKey = countingKey) && decide (handshakeHost.sign countingSeed transcript =
      handshakeHost.sign countingSeed transcript)) = true
    rw [decide_eq_true rfl, decide_eq_true rfl]
    rfl
  number _ _ := rfl

theorem isPlain_plainRelay : plainRelay.IsPlain :=
  ⟨rfl, rfl, rfl, rfl, rfl, rfl, by decide⟩

def localDialing : Dialing where
  dial := { sampleDial with
    protocolVersion := localConfig.protocolVersion
    signedHello := fun _ => some (helloMsg localHandshake ⟨[], []⟩) }
  k := sampleContinuation
  reaction := sampleReaction
  bytes _ := 300

theorem sendable_localHandshake : Hello.Sendable localHandshake ⟨[], []⟩ where
  fits := fitsFrame_iff.mpr (by decide +kernel)
  describable := ⟨fun _ h => (nomatch h), fun _ h => (nomatch h), by decide, by decide⟩
  activeJobs := ⟨by decide, fun _ hr => by cases hr⟩
  pendingResults := ⟨by decide, fun _ hr => by cases hr⟩

end HuginAgent
