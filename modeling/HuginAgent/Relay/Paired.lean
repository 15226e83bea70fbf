/-
From the pairing to the first session.

A device pairs, is started again later, and dials a relay.  Everything that is needed for the
handshake went through the server, the file and the keychain meanwhile: the ids and the tenant
were minted for the row of the token, the key was sent to that row, the seed stayed on the host.
If `connect` has returned, the daemon finds all of it, and a relay that has the row as its record
lets it in.
-/
import HuginAgent.Auth.Installed
import HuginAgent.Relay.Accepts

namespace HuginAgent

theorem fromHex_hexText (bytes : List UInt8) : fromHex (hexText bytes) = bytes := by
  induction bytes with
  | nil => rfl
  | cons b rest ih =>
      have hlt : b.toNat < 256 := b.toNat_lt
      have hsum : 16 * (b.toNat / 16) + b.toNat % 16 = b.toNat := by omega
      have htext : hexText (b :: rest) =
          hexDigit (b.toNat / 16) :: hexDigit (b.toNat % 16) :: hexText rest := rfl
      rw [htext, fromHex, hexVal_hexDigit (by omega), hexVal_hexDigit (by omega)]
      dsimp only
      rw [hsum, ih, Nat.toUInt8, UInt8.ofNat_toNat]

/-! ### The daemon finds its identity -/

/-- The environment says nothing of the identity, and nothing of a version that is none. -/
structure LeavesIdentity (env : ProcessEnv) : Prop where
  identity : ∀ name ∈ ["HUGIND_SERVER_URL", "HUGIND_AGENT_ID", "HUGIND_KEY_ID",
    "HUGIND_TENANT_ID"], env name = none
  agentVersion : ∀ s, env "HUGIND_AGENT_VERSION" = some s → isSemVer s = true
  protocolVersion : ∀ s, env "HUGIND_PROTOCOL_VERSION" = some s → isSemVer s = true

/-- What `connect` has returned, as the record of it. -/
def PairingResult.identity (result : PairingResult) : PairingConfig :=
  ⟨result.serverUrl, result.ids.agentId, result.ids.keyId, result.ids.tenantId⟩

/-- What the daemon starts with is the identity that was paired, with the key of this seed. -/
structure IsPairedDaemon (host : ConnectHost) (env : ProcessEnv) (seed : Seed)
    (result : PairingResult) (config : Config) (signer : Signer) : Prop where
  identity : config.serverUrl = result.serverUrl ∧ config.agentId = result.ids.agentId ∧
    config.keyId = result.ids.keyId ∧ config.tenantId = result.ids.tenantId
  spelled : config.Says env (some result.identity)
  keyId : signer.keyId = result.ids.keyId
  sign : ∀ transcript, signer.sign transcript = toBase64Url (host.sign seed transcript)

section

variable {κ : Type} {ring : Keyring κ} {host : ConnectHost} {vars : PairingVars} {seed : Seed}
  {before : Device κ} {w : Installation κ}

theorem envOk_paired {env : ProcessEnv} (henv : LeavesIdentity env) {cfg : PairingConfig}
    (hserver : isServerUrl cfg.serverUrl = true) (hagent : isAuthId cfg.agentId = true)
    (hkey : isAuthId cfg.keyId = true) (htenant : isAuthId cfg.tenantId = true) :
    EnvOk env (some cfg) := by
  have hnone := henv.identity
  simp only [List.forall_mem_cons] at hnone
  obtain ⟨hurl, hid, hkeyId, htenantId, -⟩ := hnone
  refine ⟨⟨cfg.serverUrl, by rw [hurl]; rfl, hserver⟩, ⟨cfg.agentId, by rw [hid]; rfl, hagent⟩,
    fun s hs => ?_, fun s hs => ?_, henv.agentVersion, henv.protocolVersion⟩
  · rw [hkeyId] at hs
    obtain rfl := Option.some.inj hs
    exact hkey
  · rw [htenantId] at hs
    obtain rfl := Option.some.inj hs
    exact htenant

/-- **A daemon that is started after its pairing has what was paired.** -/
theorem daemon_starts (hcanonical : canonicalizeServerOrigin host.idna vars.canonicalOrigin =
      some vars.canonicalOrigin)
    (h : Installation.KeepsIdentity ring host vars seed before w) {result : PairingResult}
    (hdone : w.connect.phase = .settled (.ok result)) {env : ProcessEnv} {homedir : JsString}
    (hpath : configFilePath env homedir = result.configPath) (henv : LeavesIdentity env) :
    ∃ config signer, loadConfigFromEnv host.number homedir env w.device.files = some config ∧
      keychainSigner host config.keyId (w.device.seedOf ring config.keyId) = some signer ∧
      IsPairedDaemon host env seed result config signer := by
  obtain ⟨hconfirmed, hserver, -, hread, hseed⟩ := h.returned result hdone
  obtain ⟨hagent, hkey, htenant⟩ := hconfirmed.isAuthId
  obtain ⟨-, o, ho, -⟩ := canonicalizeServerOrigin_eq_some_iff.mp hcanonical
  have hurl : isServerUrl vars.canonicalOrigin = true := by
    rw [ho]
    exact isServerUrl_text o
  rw [← hpath] at hread
  obtain ⟨config, hload, hspelled⟩ :=
    loadConfigFromEnv_loads hread (envOk_paired henv hurl hagent hkey htenant)
  have hidentity : vars.identity result.ids = result.identity := by
    rw [PairingVars.identity, PairingResult.identity, hserver]
  rw [hidentity] at hspelled
  have hnone := henv.identity
  simp only [List.forall_mem_cons] at hnone
  obtain ⟨hurlNone, hidNone, hkeyNone, htenantNone, -⟩ := hnone
  have hconfigUrl := hspelled.serverUrl
  have hconfigId := hspelled.agentId
  rw [hurlNone] at hconfigUrl
  rw [hidNone] at hconfigId
  have hkeyId : config.keyId = result.ids.keyId := by
    rw [hspelled.keyId, hkeyNone]
    rfl
  have htenantId : config.tenantId = result.ids.tenantId := by
    rw [hspelled.tenantId, htenantNone]
    rfl
  refine ⟨config, ⟨config.keyId, fun transcript => toBase64Url (host.sign seed transcript)⟩, hload,
    ?_, ⟨(Option.some.inj hconfigUrl).symm, (Option.some.inj hconfigId).symm, hkeyId, htenantId⟩,
    hspelled, hkeyId, fun transcript => rfl⟩
  rw [hkeyId, hseed, keychainSigner, Option.bind_some, seedOfBytes_toList]
  rfl

end

/-! ### It connects -/

/-- What a handshake takes from the configuration, with the signer that was loaded for it. -/
def Config.device (config : Config) : DeviceConfig where
  agentId := config.agentId
  agentVersion := config.agentVersion
  protocolVersion := config.protocolVersion
  projectRoots := config.projectRoots
  agentIdOk := config.agentIdOk
  agentVersionOk := config.agentVersionOk
  protocolVersionOk := config.protocolVersionOk
  serverUrl := config.serverUrl
  allowDevOrigin := config.allowDevOrigin
  tenantId := config.tenantId
  keyId := config.keyId
  tenantIdOk := config.tenantIdOk
  keyIdOk := config.keyIdOk

theorem Config.device_eq {config : Config} {cfg : DeviceConfig}
    (hagentId : config.agentId = cfg.agentId) (hagentVersion : config.agentVersion = cfg.agentVersion)
    (hprotocolVersion : config.protocolVersion = cfg.protocolVersion)
    (hprojectRoots : config.projectRoots = cfg.projectRoots)
    (hserverUrl : config.serverUrl = cfg.serverUrl)
    (hallowDevOrigin : config.allowDevOrigin = cfg.allowDevOrigin)
    (htenantId : config.tenantId = cfg.tenantId) (hkeyId : config.keyId = cfg.keyId) :
    config.device = cfg := by
  obtain ⟨⟨agentId, agentVersion, protocolVersion, projectRoots, _, _, _⟩, serverUrl,
    allowDevOrigin, tenantId, keyId, _, _⟩ := cfg
  cases config
  dsimp only at *
  subst hagentId hagentVersion hprotocolVersion hprojectRoots
  subst hserverUrl hallowDevOrigin htenantId hkeyId
  rfl

/-- The row as the record of a relay at an origin. -/
def PairingRow.record (row : PairingRow) (serverOrigin : JsString) : PairingRecord where
  agentId := row.ids.agentId
  keyId := row.ids.keyId
  publicKeyHex := hexText (row.winningPublicKey.getD [])
  tenantId := row.ids.tenantId
  serverOrigin

/-- A daemon with this configuration and signer dials, and answers this challenge. -/
structure Dialing.Answers {isIso : JsString → Bool} (d : Dialing) (idna : Idna) (config : Config)
    (signer : Signer) (challenge : AuthChallenge) (hs : Handshake isIso) (resume : ResumeState)
    (c : Connection) : Prop where
  protocolVersion : d.dial.protocolVersion = config.protocolVersion
  sends : d.k.sends = true
  configured : hs.config = config.device.toAgentConfig
  challengeId : hs.challengeId = challenge.challengeId
  keyId : hs.keyId = signer.keyId
  signature : ∃ transcript, config.device.transcript? idna challenge = some transcript ∧
    hs.signature = signer.sign transcript
  hello : d.dial.signedHello challenge = some (helloMsg hs resume)
  sendable : Hello.Sendable hs resume
  challengeBytes : d.bytes (.challenge challenge) ≤ maxFrameBytes
  stage : c.stage = .dialing
  client : c.client = .fresh
  closed : c.closed = false
  running : c.running = true

/-- A relay that knows this record, or lets in anybody, and speaks a version of the daemon's. -/
structure MockRelay.Awaits {ι : Type} (opts : MockRelayOpts) (s : MockRelay ι)
    (record : PairingRecord) (protocolVersion version : JsString) (d : Dialing) (lastEpoch : Int) :
    Prop where
  plain : opts.IsPlain
  known : ∀ known, s.verifyRecord = some known → known = record
  negotiated : negotiateVersion protocolVersion opts.supported = some version
  safe : s.epoch < maxSafeInteger
  acceptanceBytes : d.bytes (s.acceptance opts version) ≤ maxFrameBytes
  epoch : lastEpoch ≤ s.epoch

section

variable {ι κ γ : Type} [DecidableEq ι] [DecidableEq γ] {host : PairingHost}
  {pairingOpts : MockPairingOpts} {ceremony : Ceremony ι} {ring : Keyring κ}

/-- **Who has paired connects.**  Whatever else went on while a device paired: when its `connect`
has returned, the daemon that is started on its host loads the identity and signs with its key, and
a relay that has the row of the pairing as its record completes the handshake with it. -/
theorem paired_connects (hlawful : host.IsLawful) (hring : ring.IsLawful) {port : Nat}
    {before : List PairingServer.Event} {connects : ι → ConnectOptions × JsNumber × Seed}
    (hsimple : pairingOpts.simplePairing = false)
    (hstart : Ceremony.Starts host pairingOpts port before connects ceremony)
    (events : List (CeremonyEvent ι)) (hnew : (Ceremony.draws host events).Nodup) (i : ι)
    {p : Pairing}
    (hp : connect host.toConnectHost (connects i).1 (connects i).2.1 (connects i).2.2 = .ok p)
    (device : Device κ) (acts : List InstallAction)
    (hsame : (Machine.run (Installation.step ring host.toConnectHost p.vars) ⟨p.state, device⟩
      acts).connect = ((Machine.run (Ceremony.step host pairingOpts) ceremony events).parties i).client)
    {result : PairingResult}
    (hdone : ((Machine.run (Ceremony.step host pairingOpts) ceremony events).parties i).client.phase =
      .settled (.ok result))
    {env : ProcessEnv} {homedir : JsString} (hpath : configFilePath env homedir = result.configPath)
    (henv : LeavesIdentity env) :
    ∃ row config signer,
      (Machine.run (Ceremony.step host pairingOpts) ceremony events).server.rows.find? row.id =
        some row ∧ row.state = .active ∧
      loadConfigFromEnv host.number homedir env
        (Machine.run (Installation.step ring host.toConnectHost p.vars) ⟨p.state, device⟩
          acts).device.files = some config ∧
      keychainSigner host.toConnectHost config.keyId
        ((Machine.run (Installation.step ring host.toConnectHost p.vars) ⟨p.state, device⟩
          acts).device.seedOf ring config.keyId) = some signer ∧
      IsPairedDaemon host.toConnectHost env (connects i).2.2 result config signer ∧
      ∀ {isIso : JsString → Bool} {opts : MockRelayOpts} {s : MockRelay γ} {version : JsString}
        {d : Dialing} {c : Connection} {hs : Handshake isIso} {resume : ResumeState}
        {challengeId : JsString} {random : Seed} (conn : γ), isAuthId challengeId = true →
        s.Awaits opts (row.record config.serverUrl) config.protocolVersion version d c.lastEpoch →
        d.Answers host.idna config signer ⟨challengeId, toBase64Url random.toList⟩ hs resume c →
        ∃ accepted, Completed (d.exchange host isIso opts s conn challengeId random c).1 conn
          (d.exchange host isIso opts s conn challengeId random c).2
          ⟨challengeId, toBase64Url random.toList⟩ version accepted := by
  obtain ⟨⟨row, hrow, hwinner, -, hconfirmed, hids⟩, hkey⟩ :=
    Ceremony.paired_run hsimple hstart events hnew hdone
  simp only [PairingRow.isConfirmed, Bool.and_eq_true, decide_eq_true_eq] at hconfirmed
  have hcanonical := (connect_begins hp).1
  have hkeeps := (Installation.phaseKeeps_run hring hp device acts).keepsIdentity hlawful.number
    hcanonical
  rw [← hsame] at hdone
  obtain ⟨config, signer, hload, hsigner, hpaired⟩ :=
    daemon_starts hcanonical hkeeps hdone hpath henv
  refine ⟨row, config, signer, hrow, hconfirmed.1.1, hload, hsigner, hpaired, ?_⟩
  intro isIso opts s version d c hs resume challengeId random conn hid hawaits hanswers
  have hserver : result.serverUrl = p.vars.canonicalOrigin := (hkeeps.returned result hdone).2.1
  obtain ⟨transcript, htranscript, hsignature⟩ := hanswers.signature
  -- The record of the row is the daemon's.
  have hmatches : (row.record config.serverUrl).Matches config.device
      (host.publicRaw (connects i).2.2) := by
    refine ⟨?_, ?_, ?_, rfl, ?_⟩
    · exact (congrArg PairedIds.agentId hids).trans hpaired.identity.2.1.symm
    · exact (congrArg PairedIds.keyId hids).trans hpaired.identity.2.2.1.symm
    · exact (congrArg PairedIds.tenantId hids).trans hpaired.identity.2.2.2.symm
    · rw [PairingRow.record, hwinner, hkey, Option.getD_some, fromHex_hexText]
  have hsigns : hs.Signs host (connects i).2.2 config.device
      ⟨challengeId, toBase64Url random.toList⟩ :=
    ⟨hanswers.configured, hanswers.challengeId,
      hanswers.keyId.trans (hpaired.keyId.trans hpaired.identity.2.2.1.symm),
      transcript, htranscript, hsignature.trans (hpaired.sign transcript)⟩
  have horigin : canonicalizeServerOrigin host.idna config.device.serverUrl =
      some config.device.serverUrl := by
    show canonicalizeServerOrigin host.idna config.serverUrl = some config.serverUrl
    rw [hpaired.identity.1, hserver]
    exact hcanonical
  exact handshake_completes hlawful hawaits.plain hid random horigin
    (fun known hknown => hawaits.known known hknown ▸ hmatches) hawaits.negotiated hawaits.safe
    hanswers.protocolVersion hanswers.sends hsigns hanswers.sendable hanswers.hello
    hanswers.challengeBytes hawaits.acceptanceBytes hanswers.stage hanswers.client hanswers.closed
    hanswers.running hawaits.epoch

end

/-! ### The host of a device in a ceremony -/

section

variable {ι κ : Type} [DecidableEq ι] (host : PairingHost) (pairingOpts : MockPairingOpts)

/-- What happens to a device is what happens to its `connect`. -/
theorem client_step (c : Ceremony ι) (e : CeremonyEvent ι) (i : ι) :
    ∃ inputs, ((c.step host pairingOpts e).parties i).client =
      Machine.run (ConnectState.step host.toConnectHost (c.parties i).vars) (c.parties i).client
        inputs := by
  have hidle : ∃ inputs, (c.parties i).client =
      Machine.run (ConnectState.step host.toConnectHost (c.parties i).vars) (c.parties i).client
        inputs := ⟨[], rfl⟩
  cases e with
  | elsewhere e => exact hidle
  | deliver j clock random =>
      simp only [Ceremony.step, Ceremony.onParty]
      split
      · unfold Party.onDeliver
        split
        · exact hidle
        · exact hidle
      · exact hidle
  | arrive j =>
      simp only [Ceremony.step, Ceremony.onParty]
      split
      · unfold Party.onArrive
        split
        · rename_i reply _
          exact ⟨[.reply reply], rfl⟩
        · exact hidle
      · exact hidle
  | lost j =>
      simp only [Ceremony.step, Ceremony.onParty]
      split
      · unfold Party.onLost
        split
        · exact hidle
        · exact ⟨[.reply .failed], rfl⟩
      · exact hidle
  | input j input =>
      simp only [Ceremony.step, Ceremony.onParty]
      split
      · unfold Party.onInput
        split
        · exact hidle
        · exact ⟨[_], rfl⟩
        · exact hidle
      · exact hidle

theorem client_run (c : Ceremony ι) (events : List (CeremonyEvent ι)) (i : ι) :
    ∃ inputs, ((Machine.run (Ceremony.step host pairingOpts) c events).parties i).client =
      Machine.run (ConnectState.step host.toConnectHost (c.parties i).vars) (c.parties i).client
        inputs := by
  induction events generalizing c with
  | nil => exact ⟨[], rfl⟩
  | cons e rest ih =>
      obtain ⟨first, hfirst⟩ := client_step host pairingOpts c e i
      obtain ⟨more, hmore⟩ := ih (c.step host pairingOpts e)
      rw [Ceremony.vars_step, hfirst] at hmore
      exact ⟨first ++ more, by rw [Machine.run_cons, hmore, Machine.run_append]⟩

theorem connect_run (ring : Keyring κ) (vars : PairingVars) (w : Installation κ)
    (inputs : List ConnectInput) :
    (Machine.run (Installation.step ring host.toConnectHost vars) w (inputs.map .input)).connect =
      Machine.run (ConnectState.step host.toConnectHost vars) w.connect inputs := by
  induction inputs generalizing w with
  | nil => rfl
  | cons input rest ih => exact ih _

/-- The host of a device that has gone through a ceremony. -/
theorem exists_installation (ring : Keyring κ) {c : Ceremony ι} {p : Pairing} {i : ι}
    (hparty : c.parties i = .start p) (events : List (CeremonyEvent ι)) (device : Device κ) :
    ∃ acts, (Machine.run (Installation.step ring host.toConnectHost p.vars) ⟨p.state, device⟩
      acts).connect =
        ((Machine.run (Ceremony.step host pairingOpts) c events).parties i).client := by
  obtain ⟨inputs, hinputs⟩ := client_run host pairingOpts c events i
  refine ⟨inputs.map .input, ?_⟩
  rw [connect_run, hinputs, hparty]
  rfl

end

/-! ### On the local port -/

/-- The ids of the handshake on the local port. -/
def pairedOpts : MockPairingOpts :=
  { plainOpts with agentId := some (js "agent-abc"), keyId := some (js "key-aa") }

/-- The device has the token of the one secret. -/
def pairedStart (p : Pairing) : Ceremony Unit :=
  ⟨PairingServer.after completingHost pairedOpts 8787 [localMint], fun _ => .start p⟩

/-- Nothing is set. -/
def bareProcess : ProcessEnv := fun _ => none

theorem leavesIdentity_bareProcess : LeavesIdentity bareProcess :=
  ⟨fun _ _ => rfl, fun _ h => (by cases h), fun _ h => (by cases h)⟩

theorem local_connects : ∃ (p : Pairing) (acts : List InstallAction) (row : PairingRow)
    (config : Config) (accepted : HelloAccepted),
    connect completingHost.toConnectHost localConnect (.ofInt 1000) countingSeed = .ok p ∧
    loadConfigFromEnv completingHost.number (js "/home/u") bareProcess
      (Machine.run (Installation.step mapRing completingHost.toConnectHost p.vars)
        ⟨p.state, Installation.emptyDevice⟩ acts).device.files = some config ∧
    Completed
      (localDialing.exchange completingHost isLocalTime plainRelay
        (MockRelay.fresh (some (row.record config.serverUrl))) () localChallenge.challengeId
        (Vector.replicate 32 5) (.start localDialing.dial [] true 0)).1 ()
      (localDialing.exchange completingHost isLocalTime plainRelay
        (MockRelay.fresh (some (row.record config.serverUrl))) () localChallenge.challengeId
        (Vector.replicate 32 5) (.start localDialing.dial [] true 0)).2
      ⟨localChallenge.challengeId, toBase64Url (Vector.replicate 32 5).toList⟩ (js "2.0.0")
      accepted := by
  have hreturned : ((connect completingHost.toConnectHost localConnect (.ofInt 1000)
      countingSeed).toOption.any fun p => (Machine.run (Ceremony.step completingHost pairedOpts)
        (pairedStart p) (Ceremony.localEvents () 8 9)).returned () =
          some ⟨⟨js "agent-abc", js "key-aa", js "acme"⟩, js "ws://127.0.0.1:8787",
            js "/home/u/.config/hugin-agent/config.json"⟩) = true := by decide +kernel
  cases hconnect : connect completingHost.toConnectHost localConnect (.ofInt 1000)
      countingSeed with
  | error e =>
      rw [hconnect] at hreturned
      cases hreturned
  | ok p =>
      rw [hconnect] at hreturned
      have hdone := Ceremony.phase_of_returned (of_decide_eq_true hreturned)
      have hstart : Ceremony.Starts completingHost pairedOpts 8787 [localMint]
          (fun _ => (localConnect, .ofInt 1000, countingSeed)) (pairedStart p) :=
        ⟨rfl, fun _ => ⟨p, hconnect, rfl⟩⟩
      obtain ⟨acts, hsame⟩ := exists_installation completingHost pairedOpts mapRing
        (c := pairedStart p) (i := ()) rfl (Ceremony.localEvents () 8 9) Installation.emptyDevice
      obtain ⟨row, config, signer, -, -, hload, -, hpaired, hconnects⟩ := paired_connects
        (γ := Unit) isLawful_completingHost isLawful_mapRing rfl hstart
        (Ceremony.localEvents () 8 9) (by decide +kernel) () hconnect Installation.emptyDevice acts
        hsame hdone
        (show configFilePath bareProcess (js "/home/u") =
          js "/home/u/.config/hugin-agent/config.json" by decide +kernel) leavesIdentity_bareProcess
      obtain ⟨hserver, hagent, hkey, htenant⟩ := hpaired.identity
      have hversion : config.protocolVersion = js "2.0.0" := hpaired.spelled.protocolVersion
      have hdevice : config.device = localConfig :=
        Config.device_eq hagent hpaired.spelled.agentVersion hversion hpaired.spelled.projectRoots
          hserver hpaired.spelled.allowDevOrigin htenant hkey
      have hawaits : (MockRelay.fresh (some (row.record config.serverUrl)) : MockRelay Unit).Awaits
          plainRelay (row.record config.serverUrl) config.protocolVersion (js "2.0.0") localDialing
          (Connection.start localDialing.dial [] true 0).lastEpoch := by
        refine ⟨isPlain_plainRelay, fun known hknown => (Option.some.inj hknown).symm, ?_,
          (show 0 < maxSafeInteger by decide), (show 300 ≤ maxFrameBytes by decide), Int.le_refl 0⟩
        rw [hversion]
        decide +kernel
      have hanswers : localDialing.Answers completingHost.idna config signer
          ⟨localChallenge.challengeId, toBase64Url (Vector.replicate 32 5).toList⟩ localHandshake
          ⟨[], []⟩ (.start localDialing.dial [] true 0) := by
        refine ⟨hversion.symm, rfl, congrArg DeviceConfig.toAgentConfig hdevice.symm, rfl,
          hpaired.keyId.symm, ⟨localTranscript, ?_, ?_⟩, rfl, sendable_localHandshake, by decide,
          rfl, rfl, rfl, rfl⟩
        · rw [hdevice]
          decide +kernel
        · rw [hpaired.sign]
          decide +kernel
      obtain ⟨accepted, hcompleted⟩ := hconnects () (by decide +kernel) hawaits hanswers
      exact ⟨p, acts, row, config, accepted, rfl, hload, hcompleted⟩

end HuginAgent
