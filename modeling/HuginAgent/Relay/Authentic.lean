/-
Who the relay lets in.

Any number of connections are open at the relay, and what comes in over them is anybody's.  The
devices sign what they are asked to, whoever asks: the challenge of a handshake, and the
transcript of a pairing.  Two things are assumed of the world.  A signature that verifies under
the key of a device is one over a transcript that the device has signed before, and the nonce of a
new challenge is in no challenge and in no transcript so far.

Then an acceptance under such a key was preceded by the device signing this challenge, after the
relay had sent it, for this origin, this tenant, these ids and this version; and no two
acceptances are over one signature.  A device that was talked into signing for someone else has not
let him in.
-/
import HuginAgent.Kit.Machine
import HuginAgent.Pairing.Agreement
import HuginAgent.Relay.Server

namespace HuginAgent

inductive AuthEvent (ι : Type)
  /-- The relay has sent the challenge of a connection. -/
  | issued (i : ι) (challenge : AuthChallenge)
  /-- A daemon has signed the challenge it was given. -/
  | signed (seed : Seed) (cfg : DeviceConfig) (challenge : AuthChallenge)
  /-- A device that pairs has signed. -/
  | proved (seed : Seed) (fields : PairingTranscriptFields)
  /-- The relay has accepted the `hello` of a connection, with the record of the moment. -/
  | accepted (i : ι) (challenge : AuthChallenge) (record : Option PairingRecord) (hello : Hello)
      (epoch : Nat)

inductive AuthAction (ι : Type)
  | connect (i : ι) (challengeId : JsString) (random : Seed)
  | frame (i : ι) (raw : List UInt8)
  | setVerifyAuth (record : PairingRecord)
  | handshake (seed : Seed) (cfg : DeviceConfig) (challenge : AuthChallenge)
  | pair (seed : Seed) (fields : PairingTranscriptFields)

structure AuthWorld (ι : Type) where
  relay : MockRelay ι
  log : List (AuthEvent ι)

/-- What a device has signed with an event. -/
def AuthEvent.transcript? {ι : Type} (idna : Idna) : AuthEvent ι → Option (Seed × List UInt8)
  | .signed seed cfg challenge => (cfg.transcript? idna challenge).map fun t => (seed, t)
  | .proved seed fields => (buildPairingTranscript fields).map fun t => (seed, t)
  | _ => none

namespace AuthEvent

variable {ι : Type}

/-- The nonce that was sent, or signed. -/
def nonce? : AuthEvent ι → Option JsString
  | issued _ challenge => some challenge.nonce
  | signed _ _ challenge => some challenge.nonce
  | _ => none

/-- The challenge that was accepted under a key. -/
def acceptedUnder? (key : List UInt8) : AuthEvent ι → Option AuthChallenge
  | accepted _ challenge (some record) _ _ =>
      if fromHex record.publicKeyHex = key then some challenge else none
  | _ => none

/-- The challenge that a device of this key has signed. -/
def signedUnder? (host : PairingHost) (key : List UInt8) : AuthEvent ι → Option AuthChallenge
  | signed seed _ challenge => if host.publicRaw seed = key then some challenge else none
  | _ => none

/-- The nonce that was accepted. -/
def acceptedNonce? : AuthEvent ι → Option JsString
  | accepted _ challenge _ _ _ => some challenge.nonce
  | _ => none

end AuthEvent

/-- The schema of `auth.challenge` lets it through. -/
def AuthChallenge.passes (challenge : AuthChallenge) : Bool :=
  isAuthId challenge.challengeId && isChallengeNonce challenge.nonce

namespace AuthWorld

variable {ι : Type} [DecidableEq ι] (host : PairingHost) (isIso : JsString → Bool)
  (opts : MockRelayOpts)

def fresh (record : Option PairingRecord) : AuthWorld ι := ⟨.fresh record, []⟩

def note (w : AuthWorld ι) (e : AuthEvent ι) : AuthWorld ι := { w with log := w.log ++ [e] }

/-- The acceptance that a frame brings about. -/
def acceptance? (w : AuthWorld ι) (i : ι) (raw : List UInt8) : Option (AuthEvent ι) :=
  match w.relay.conns i, Hello.decodeHello host.number isIso raw with
  | some c, some m =>
      match w.relay.judge host opts c m with
      | .accepted _ =>
          some (.accepted i c.issued w.relay.verifyRecord m (w.relay.nextEpoch opts))
      | _ => none
  | _, _ => none

def step (w : AuthWorld ι) : AuthAction ι → AuthWorld ι
  | .connect i challengeId random =>
      match w.relay.conns i with
      | some _ => w
      | none =>
          { relay := (w.relay.handleConnection opts i challengeId random).1
            log := w.log ++
              [.issued i ⟨challengeId, opts.nonce.getD (toBase64Url random.toList)⟩] }
  | .frame i raw =>
      { relay := (w.relay.onMessage host isIso opts i raw).1
        log := w.log ++ (w.acceptance? host isIso opts i raw).toList }
  | .setVerifyAuth record => { w with relay := w.relay.setVerifyAuth record }
  | .handshake seed cfg challenge =>
      if challenge.passes = true ∧ (cfg.transcript? host.idna challenge).isSome then
        w.note (.signed seed cfg challenge)
      else w
  | .pair seed fields =>
      if (buildPairingTranscript fields).isSome then w.note (.proved seed fields) else w

/-! ### What is assumed -/

/-- A device of this key has signed the transcript. -/
def HasSigned (log : List (AuthEvent ι)) (key transcript : List UInt8) : Prop :=
  ∃ e ∈ log, ∃ seed, host.publicRaw seed = key ∧ e.transcript? host.idna = some (seed, transcript)

/-- The nonce is in no challenge and in no transcript. -/
def IsNew (log : List (AuthEvent ι)) (nonce : JsString) : Prop :=
  ∀ e ∈ log, e.nonce? ≠ some nonce

/-- `kept` tells the keys that nobody but their devices has. -/
def Possible (kept : List UInt8 → Prop) (w : AuthWorld ι) : AuthAction ι → Prop
  | .connect _ _ random => IsNew w.log (toBase64Url random.toList)
  | .frame _ raw => ∀ m, Hello.decodeHello host.number isIso raw = some m → ∀ key, kept key →
      ∀ transcript, host.verify key transcript (fromBase64Url m.signature) = true →
        HasSigned host w.log key transcript
  | _ => True

/-! ### What is said of an acceptance -/

/-- The device of the key was asked by the relay, and signed for what the record says. -/
def Answered (key : List UInt8) (before : List (AuthEvent ι)) (i : ι) (challenge : AuthChallenge)
    (record : PairingRecord) (hello : Hello) : Prop :=
  ∃ earlier later seed cfg, before = earlier ++ .issued i challenge :: later ∧
    .signed seed cfg challenge ∈ later ∧ host.publicRaw seed = key ∧
    cfg.agentId = record.agentId ∧ cfg.keyId = record.keyId ∧ cfg.tenantId = record.tenantId ∧
    cfg.serverUrl = record.serverOrigin ∧ cfg.protocolVersion = hello.protocolVersion

/-- An acceptance under a key that is kept was answered for; and a nonce is new when it is sent. -/
def InOrder (kept : List UInt8 → Prop) (before : List (AuthEvent ι)) : AuthEvent ι → Prop
  | .issued _ challenge => IsNew before challenge.nonce
  | .accepted i challenge (some record) hello _ => kept (fromHex record.publicKeyHex) →
      Answered host (fromHex record.publicKeyHex) before i challenge record hello
  | _ => True

/-- Who was let in. -/
structure Authentic (kept : List UInt8 → Prop) (log : List (AuthEvent ι)) : Prop where
  inOrder : Logged (InOrder host kept) log
  /-- Every acceptance has a signature of its own. -/
  injective : ∀ key, kept key →
    (log.filterMap (AuthEvent.acceptedUnder? key)).Subperm
      (log.filterMap (AuthEvent.signedUnder? host key))

end AuthWorld

/-! ### A step of the relay -/

section

variable {ι : Type} {host : PairingHost} {isIso : JsString → Bool} {opts : MockRelayOpts}
  {s : MockRelay ι} {c : RelayConn} {m : Hello}

/-- What a `hello` that is accepted has passed. -/
structure MockRelay.Judged (host : PairingHost) (opts : MockRelayOpts) (s : MockRelay ι)
    (c : RelayConn) (m : Hello) (version : JsString) : Prop where
  stall : opts.stallHandshake = false
  first : c.authed = false
  version : negotiateVersion m.protocolVersion opts.supported = some version
  verified : ∀ record, s.verifyRecord = some record → Verified host m c.issued record

theorem MockRelay.judge_eq_accepted_iff {version : JsString} :
    s.judge host opts c m = .accepted version ↔ s.Judged host opts c m version := by
  unfold MockRelay.judge
  constructor
  · intro h
    by_cases hstall : opts.stallHandshake = true
    · rw [if_pos hstall] at h
      cases h
    rw [if_neg hstall] at h
    by_cases hauthed : c.authed = true
    · rw [if_pos hauthed] at h
      cases h
    rw [if_neg hauthed] at h
    rw [Bool.not_eq_true] at hstall hauthed
    cases hversion : negotiateVersion m.protocolVersion opts.supported with
    | none =>
        rw [hversion] at h
        cases h
    | some v =>
        simp only [hversion] at h
        cases hrecord : s.verifyRecord with
        | none =>
            simp only [hrecord, HelloOutcome.accepted.injEq] at h
            exact ⟨hstall, hauthed, h ▸ hversion, fun record hc => nomatch hrecord.symm.trans hc⟩
        | some record =>
            simp only [hrecord] at h
            cases hresult : verifyHello host m c.issued record with
            | ok =>
                simp only [hresult, HelloOutcome.accepted.injEq] at h
                refine ⟨hstall, hauthed, h ▸ hversion, fun record' hc => ?_⟩
                obtain rfl := Option.some.inj (hrecord.symm.trans hc)
                exact verifyHello_eq_ok_iff.mp hresult
            | rejected code message =>
                rw [hresult] at h
                cases h
            | threw =>
                rw [hresult] at h
                cases h
  · intro h
    rw [h.stall, if_neg Bool.false_ne_true, h.first, if_neg Bool.false_ne_true, h.version]
    cases hrecord : s.verifyRecord with
    | none => rfl
    | some record => simp only [verifyHello_eq_ok_iff.mpr (h.verified record hrecord)]

variable [DecidableEq ι]

/-- The relay after an acceptance. -/
def MockRelay.accept (opts : MockRelayOpts) (s : MockRelay ι) (i : ι) (c : RelayConn)
    (version : JsString) : MockRelay ι :=
  { s with
    epoch := if opts.forceEpoch.isSome then s.epoch else s.epoch + 1
    conns := Function.update s.conns i
      (some { c with authed := true, v2 := isProtocolV2 (MockRelay.acceptedVersion opts version) }) }

@[simp] theorem MockRelay.accept_conns (i : ι) (version : JsString) :
    (s.accept opts i c version).conns = Function.update s.conns i
      (some { c with
        authed := true, v2 := isProtocolV2 (MockRelay.acceptedVersion opts version) }) := rfl

variable (host isIso opts) in
/-- **A frame is accepted as a `hello`, or nothing changes.** -/
theorem AuthWorld.frame_cases (w : AuthWorld ι) (i : ι) (raw : List UInt8) :
    ((w.relay.onMessage host isIso opts i raw).1 = w.relay ∧
        w.acceptance? host isIso opts i raw = none) ∨
      ∃ c m version, w.relay.conns i = some c ∧ Hello.decodeHello host.number isIso raw = some m ∧
        w.relay.Judged host opts c m version ∧
        (w.relay.onMessage host isIso opts i raw).1 = w.relay.accept opts i c version ∧
        w.acceptance? host isIso opts i raw =
          some (.accepted i c.issued w.relay.verifyRecord m (w.relay.nextEpoch opts)) := by
  unfold MockRelay.onMessage acceptance?
  cases hconn : w.relay.conns i with
  | none => exact Or.inl ⟨rfl, rfl⟩
  | some c =>
      cases hhello : Hello.decodeHello host.number isIso raw with
      | none => exact Or.inl ⟨rfl, rfl⟩
      | some m =>
          simp only [MockRelay.onHello]
          cases hjudge : w.relay.judge host opts c m with
          | ignored => exact Or.inl ⟨rfl, rfl⟩
          | rejected code message => exact Or.inl ⟨rfl, rfl⟩
          | accepted version =>
              exact Or.inr ⟨c, m, version, rfl, rfl, MockRelay.judge_eq_accepted_iff.mp hjudge,
                rfl, rfl⟩

end

namespace AuthWorld

/-! ### What holds in every world -/

/-- The relay and the log agree. -/
structure Recorded {ι : Type} (w : AuthWorld ι) : Prop where
  issued : ∀ i c, w.relay.conns i = some c → .issued i c.issued ∈ w.log
  nonce : ∀ i c, w.relay.conns i = some c → isChallengeNonce c.issued.nonce = true
  distinct : ∀ i j c d, w.relay.conns i = some c → w.relay.conns j = some d →
    c.issued.nonce = d.issued.nonce → i = j
  /-- What was accepted is a connection that is authenticated. -/
  accepted : ∀ i challenge record m epoch, .accepted i challenge record m epoch ∈ w.log →
    ∃ c, w.relay.conns i = some c ∧ c.authed = true ∧ c.issued = challenge
  signed : ∀ seed cfg challenge, .signed seed cfg challenge ∈ w.log →
    challenge.passes = true
  once : (w.log.filterMap AuthEvent.acceptedNonce?).Nodup

variable {ι : Type} {host : PairingHost} {isIso : JsString → Bool} {opts : MockRelayOpts}
  {kept : List UInt8 → Prop} {w : AuthWorld ι}

theorem isChallengeNonce_random (random : Seed) :
    isChallengeNonce (toBase64Url random.toList) = true := by
  rw [isChallengeNonce, ← validateB64u32_eq]
  exact validateB64u32_toBase64Url (by simp)

/-- An event that is neither of the relay nor of a handshake. -/
theorem Recorded.note (h : Recorded w) {e : AuthEvent ι}
    (haccepted : ∀ i challenge record m epoch, e ≠ .accepted i challenge record m epoch)
    (hsigned : ∀ seed cfg challenge, e = .signed seed cfg challenge → challenge.passes = true) :
    Recorded (w.note e) := by
  have hold : ∀ {e'}, e' ∈ (w.note e).log → e' ≠ e → e' ∈ w.log := by
    intro e' he' hne
    rcases List.mem_append.mp he' with he' | he'
    · exact he'
    · exact absurd (List.mem_singleton.mp he') hne
  refine ⟨fun i c hc => List.mem_append_left _ (h.issued i c hc), h.nonce, h.distinct,
    fun i challenge record m epoch he => h.accepted i challenge record m epoch
      (hold he (haccepted i challenge record m epoch).symm), ?_, ?_⟩
  · intro seed cfg challenge he
    by_cases hlast : e = .signed seed cfg challenge
    · exact hsigned seed cfg challenge hlast
    · exact h.signed seed cfg challenge (hold he fun hc => hlast hc.symm)
  · have hnone : e.acceptedNonce? = none := by
      cases e with
      | accepted i challenge record m epoch => exact absurd rfl (haccepted i challenge record m epoch)
      | _ => rfl
    show ((w.log ++ [e]).filterMap AuthEvent.acceptedNonce?).Nodup
    rw [List.filterMap_append, List.filterMap_cons_none hnone, List.filterMap_nil, List.append_nil]
    exact h.once

variable [DecidableEq ι]

/-- A connection with a nonce that is new. -/
theorem Recorded.connect (h : Recorded w) {i : ι} {issued : AuthChallenge}
    (hconn : w.relay.conns i = none) (hnew : IsNew w.log issued.nonce)
    (hnonce : isChallengeNonce issued.nonce = true) :
    Recorded
      { relay := { w.relay with
          conns := Function.update w.relay.conns i (some ⟨issued, false, false⟩) }
        log := w.log ++ [.issued i issued] } := by
  have hold : ∀ {e}, e ∈ w.log ++ [.issued i issued] → e ≠ .issued i issued → e ∈ w.log := by
    intro e he hne
    rcases List.mem_append.mp he with he | he
    · exact he
    · exact absurd (List.mem_singleton.mp he) hne
  -- A connection is the new one, or was there before.
  have hcases : ∀ j d, Function.update w.relay.conns i (some ⟨issued, false, false⟩) j = some d →
      (j = i ∧ d = ⟨issued, false, false⟩) ∨ (j ≠ i ∧ w.relay.conns j = some d) := by
    intro j d hd
    by_cases hj : j = i
    · subst hj
      rw [Function.update_self] at hd
      exact Or.inl ⟨rfl, (Option.some.inj hd).symm⟩
    · rw [Function.update_of_ne hj] at hd
      exact Or.inr ⟨hj, hd⟩
  have hfresh : ∀ j d, w.relay.conns j = some d → d.issued.nonce ≠ issued.nonce :=
    fun j d hd hc => hnew _ (h.issued j d hd) (congrArg some hc)
  refine ⟨?_, ?_, ?_, ?_, ?_, ?_⟩
  · intro j d hd
    rcases hcases j d hd with ⟨rfl, rfl⟩ | ⟨-, hd⟩
    · exact List.mem_append_right _ List.mem_cons_self
    · exact List.mem_append_left _ (h.issued j d hd)
  · intro j d hd
    rcases hcases j d hd with ⟨rfl, rfl⟩ | ⟨-, hd⟩
    · exact hnonce
    · exact h.nonce j d hd
  · intro j k d e hd he hsame
    rcases hcases j d hd with ⟨rfl, rfl⟩ | ⟨-, hthere⟩
    · rcases hcases k e he with ⟨rfl, rfl⟩ | ⟨-, hthere⟩
      · rfl
      · exact absurd hsame.symm (hfresh k e hthere)
    · rcases hcases k e he with ⟨rfl, rfl⟩ | ⟨-, hthere'⟩
      · exact absurd hsame (hfresh j d hthere)
      · exact h.distinct j k d e hthere hthere' hsame
  · intro j challenge record m epoch he
    obtain ⟨d, hd, hauthed⟩ := h.accepted j challenge record m epoch
      (hold he (by intro hc; cases hc))
    refine ⟨d, ?_, hauthed⟩
    have hj : j ≠ i := by
      rintro rfl
      rw [hconn] at hd
      cases hd
    exact (Function.update_of_ne hj _ _).trans hd
  · exact fun seed cfg challenge he => h.signed seed cfg challenge
      (hold he (by intro hc; cases hc))
  · show ((w.log ++ [AuthEvent.issued i issued]).filterMap AuthEvent.acceptedNonce?).Nodup
    rw [List.filterMap_append]
    exact (List.append_nil _).symm ▸ h.once

/-- An acceptance of a connection that was not authenticated. -/
theorem Recorded.accept (h : Recorded w) {i : ι} {c : RelayConn} {m : Hello} {version : JsString}
    {epoch : Nat} (hconn : w.relay.conns i = some c) (hfirst : c.authed = false) :
    Recorded
      { relay := w.relay.accept opts i c version
        log := w.log ++ [.accepted i c.issued w.relay.verifyRecord m epoch] } := by
  -- The challenge of a connection stays as it is.
  have hcases : ∀ j d, (w.relay.accept opts i c version).conns j = some d →
      ∃ d', w.relay.conns j = some d' ∧ d'.issued = d.issued := by
    intro j d hd
    by_cases hj : j = i
    · subst hj
      rw [MockRelay.accept_conns, Function.update_self] at hd
      obtain rfl := Option.some.inj hd
      exact ⟨c, hconn, rfl⟩
    · rw [MockRelay.accept_conns, Function.update_of_ne hj] at hd
      exact ⟨d, hd, rfl⟩
  refine ⟨?_, ?_, ?_, ?_, ?_, ?_⟩
  · intro j d hd
    obtain ⟨d', hd', hissued⟩ := hcases j d hd
    exact List.mem_append_left _ (hissued ▸ h.issued j d' hd')
  · intro j d hd
    obtain ⟨d', hd', hissued⟩ := hcases j d hd
    exact hissued ▸ h.nonce j d' hd'
  · intro j k d e hd he hsame
    obtain ⟨d', hd', hissued⟩ := hcases j d hd
    obtain ⟨e', he', hissued'⟩ := hcases k e he
    exact h.distinct j k d' e' hd' he' (by rw [hissued, hissued', hsame])
  · intro j challenge record m' epoch' he
    by_cases hj : j = i
    · subst hj
      refine ⟨_, Function.update_self .., rfl, ?_⟩
      rcases List.mem_append.mp he with he | he
      · obtain ⟨d, hd, hauthed, -⟩ := h.accepted j challenge record m' epoch' he
        rw [hconn] at hd
        rw [← Option.some.inj hd, hfirst] at hauthed
        cases hauthed
      · cases List.mem_singleton.mp he
        rfl
    · rcases List.mem_append.mp he with he | he
      · obtain ⟨d, hd, hauthed⟩ := h.accepted j challenge record m' epoch' he
        exact ⟨d, (Function.update_of_ne hj _ _).trans hd, hauthed⟩
      · cases List.mem_singleton.mp he
        exact absurd rfl hj
  · intro seed cfg challenge he
    rcases List.mem_append.mp he with he | he
    · exact h.signed seed cfg challenge he
    · cases List.mem_singleton.mp he
  · show ((w.log ++ [AuthEvent.accepted i c.issued w.relay.verifyRecord m epoch]).filterMap
      AuthEvent.acceptedNonce?).Nodup
    rw [List.filterMap_append, List.nodup_append]
    refine ⟨h.once, List.nodup_singleton _, ?_⟩
    intro nonce hnonce nonce' hnonce' hsame
    obtain rfl := List.mem_singleton.mp hnonce'
    obtain ⟨e, he, haccepted⟩ := List.mem_filterMap.mp hnonce
    cases e with
    | accepted j challenge record m' epoch' =>
        obtain ⟨d, hd, hauthed, hissued⟩ := h.accepted j challenge record m' epoch' he
        have hnonces : d.issued.nonce = c.issued.nonce := by
          rw [hissued, ← hsame]
          exact Option.some.inj haccepted
        obtain rfl := h.distinct j i d c hd hconn hnonces
        rw [hconn] at hd
        rw [← Option.some.inj hd, hfirst] at hauthed
        cases hauthed
    | _ => cases haccepted

/-- **Every step keeps the relay and the log in agreement.** -/
theorem recorded_step (hnonce : opts.nonce = none) (h : Recorded w) {act : AuthAction ι}
    (hpossible : Possible host isIso kept w act) : Recorded (w.step host isIso opts act) := by
  cases act with
  | connect i challengeId random =>
      cases hconn : w.relay.conns i with
      | some c =>
          simp only [step, hconn]
          exact h
      | none =>
          simp only [step, hconn, MockRelay.handleConnection, hnonce, Option.getD_none]
          exact h.connect hconn hpossible (isChallengeNonce_random random)
  | frame i raw =>
      rcases w.frame_cases host isIso opts i raw with
        ⟨hrelay, hnone⟩ | ⟨c, m, version, hconn, -, hjudged, hrelay, hsome⟩
      · rw [step, hrelay, hnone, Option.toList_none, List.append_nil]
        exact h
      · rw [step, hrelay, hsome, Option.toList_some]
        exact h.accept hconn hjudged.first
  | setVerifyAuth record =>
      exact ⟨h.issued, h.nonce, h.distinct, h.accepted, h.signed, h.once⟩
  | handshake seed cfg challenge =>
      rw [step]
      split
      · rename_i hsigned
        refine h.note (fun i challenge record m epoch hc => by cases hc) ?_
        intro seed' cfg' challenge' hc
        cases hc
        exact hsigned.1
      · exact h
  | pair seed fields =>
      rw [step]
      split
      · exact h.note (fun i challenge record m epoch hc => by cases hc)
          (fun seed' cfg challenge hc => by cases hc)
      · exact h

/-! ### What an acceptance rests on -/

omit [DecidableEq ι] in
/-- What was signed with a nonce that was new when it was sent, was signed after that. -/
theorem signed_later {log : List (AuthEvent ι)} (hlog : Logged (InOrder host kept) log) {i : ι}
    {challenge : AuthChallenge} {seed : Seed} {cfg : DeviceConfig}
    (hissued : .issued i challenge ∈ log) (hsigned : .signed seed cfg challenge ∈ log) :
    ∃ earlier later, log = earlier ++ .issued i challenge :: later ∧
      .signed seed cfg challenge ∈ later := by
  obtain ⟨earlier, later, hsplit, hnew⟩ := hlog.of_mem hissued
  refine ⟨earlier, later, hsplit, ?_⟩
  rw [hsplit, List.mem_append, List.mem_cons] at hsigned
  rcases hsigned with hsigned | hsigned | hsigned
  · exact absurd rfl (hnew _ hsigned)
  · cases hsigned
  · exact hsigned

omit [DecidableEq ι] in
/-- **A `hello` that verifies under a key that is kept was answered for.** -/
theorem answered_of_verified (h : Recorded w) (hlog : Logged (InOrder host kept) w.log)
    {i : ι} {c : RelayConn} {m : Hello} {record : PairingRecord}
    (hconn : w.relay.conns i = some c) (hverified : Verified host m c.issued record)
    (hsigned : ∀ transcript, host.verify (fromHex record.publicKeyHex) transcript
      (fromBase64Url m.signature) = true →
        HasSigned host w.log (fromHex record.publicKeyHex) transcript) :
    Answered host (fromHex record.publicKeyHex) w.log i c.issued record m := by
  obtain ⟨transcript, ht, hverify⟩ := hverified.signed
  obtain ⟨e, he, seed, hseed, hevent⟩ := hsigned transcript (verify_of_verifyTranscript hverify)
  cases e with
  | signed seed' cfg challenge =>
      obtain ⟨t, ht', hpair⟩ := Option.map_eq_some_iff.mp hevent
      obtain ⟨rfl, rfl⟩ := Prod.mk.inj hpair
      have hpasses := h.signed seed' cfg challenge he
      rw [AuthChallenge.passes, Bool.and_eq_true] at hpasses
      obtain ⟨rfl, hagent, hkey, htenant, horigin, hversion⟩ :=
        hverified.of_transcript (h.nonce i c hconn) hpasses.2 ht ht'
      obtain ⟨earlier, later, hsplit, hlater⟩ := signed_later hlog (h.issued i c hconn) he
      exact ⟨earlier, later, seed', cfg, hsplit, hlater, hseed, hagent, hkey, htenant, horigin,
        hversion⟩
  | proved seed' fields =>
      -- What is signed to pair is no transcript of a handshake.
      obtain ⟨t, ht', hpair⟩ := Option.map_eq_some_iff.mp hevent
      obtain ⟨rfl, rfl⟩ := Prod.mk.inj hpair
      exact absurd ht' fun hc => transcripts_disjoint ht hc
  | issued j challenge => cases hevent
  | accepted j challenge record' m' epoch => cases hevent

/-- **Every step keeps the log in order.** -/
theorem inOrder_step (hnonce : opts.nonce = none) (h : Recorded w)
    (hlog : Logged (InOrder host kept) w.log) {act : AuthAction ι}
    (hpossible : Possible host isIso kept w act) :
    Logged (InOrder host kept) (w.step host isIso opts act).log := by
  cases act with
  | connect i challengeId random =>
      cases hconn : w.relay.conns i with
      | some c =>
          simp only [step, hconn]
          exact hlog
      | none =>
          simp only [step, hconn, hnonce, Option.getD_none]
          exact logged_concat.mpr ⟨hlog, hpossible⟩
  | frame i raw =>
      rcases w.frame_cases host isIso opts i raw with
        ⟨-, hnone⟩ | ⟨c, m, version, hconn, hhello, hjudged, -, hsome⟩
      · rw [step, hnone, Option.toList_none, List.append_nil]
        exact hlog
      · rw [step, hsome, Option.toList_some]
        refine logged_concat.mpr ⟨hlog, ?_⟩
        cases hrecord : w.relay.verifyRecord with
        | none => trivial
        | some record =>
            intro hkept
            exact answered_of_verified h hlog hconn (hjudged.verified record hrecord)
              fun transcript hverify => hpossible m hhello _ hkept transcript hverify
  | setVerifyAuth record => exact hlog
  | handshake seed cfg challenge =>
      rw [step]
      split
      · exact logged_concat.mpr ⟨hlog, trivial⟩
      · exact hlog
  | pair seed fields =>
      rw [step]
      split
      · exact logged_concat.mpr ⟨hlog, trivial⟩
      · exact hlog

omit [DecidableEq ι] in
theorem acceptedUnder?_eq_some {key : List UInt8} {e : AuthEvent ι} {challenge : AuthChallenge}
    (h : e.acceptedUnder? key = some challenge) :
    ∃ i record m epoch, e = .accepted i challenge (some record) m epoch ∧
      fromHex record.publicKeyHex = key := by
  cases e with
  | accepted i challenge' record m epoch =>
      cases record with
      | none => cases h
      | some record =>
          obtain ⟨hkey, hsame⟩ := Option.ite_none_right_eq_some.mp h
          exact ⟨i, record, m, epoch, by rw [Option.some.inj hsame], hkey⟩
  | _ => cases h

omit [DecidableEq ι] in
theorem nonces_acceptedUnder_sublist (key : List UInt8) (log : List (AuthEvent ι)) :
    ((log.filterMap (AuthEvent.acceptedUnder? key)).map AuthChallenge.nonce).Sublist
      (log.filterMap AuthEvent.acceptedNonce?) := by
  induction log with
  | nil => exact .slnil
  | cons e rest ih =>
      cases he : e.acceptedUnder? key with
      | none =>
          rw [List.filterMap_cons_none he]
          exact ih.trans ((List.sublist_cons_self e rest).filterMap _)
      | some challenge =>
          obtain ⟨i, record, m, epoch, rfl, -⟩ := acceptedUnder?_eq_some he
          rw [List.filterMap_cons_some he, List.map_cons]
          exact ih.cons_cons _

omit [DecidableEq ι] in
/-- **No two acceptances are over one signature.** -/
theorem subperm_of_inOrder (h : Recorded w) (hlog : Logged (InOrder host kept) w.log)
    {key : List UInt8} (hkept : kept key) :
    (w.log.filterMap (AuthEvent.acceptedUnder? key)).Subperm
      (w.log.filterMap (AuthEvent.signedUnder? host key)) := by
  have hnodup := (h.once.sublist (nonces_acceptedUnder_sublist key w.log)).of_map
  refine List.subperm_of_subset hnodup fun challenge hmem => ?_
  obtain ⟨e, he, hunder⟩ := List.mem_filterMap.mp hmem
  obtain ⟨i, record, m, epoch, rfl, hkey⟩ := acceptedUnder?_eq_some hunder
  obtain ⟨before, after, hsplit, hanswered⟩ := hlog.of_mem he
  obtain ⟨earlier, later, seed, cfg, hbefore, hsigned, hseed, -⟩ := hanswered (hkey ▸ hkept)
  refine List.mem_filterMap.mpr ⟨.signed seed cfg challenge, ?_, if_pos (hseed.trans hkey)⟩
  rw [hsplit, hbefore]
  exact List.mem_append_left _ (List.mem_append_right _ (List.mem_cons_of_mem _ hsigned))

omit [DecidableEq ι] in
theorem recorded_fresh (record : Option PairingRecord) : Recorded (fresh record : AuthWorld ι) where
  issued i c hc := by cases hc
  nonce i c hc := by cases hc
  distinct i j c d hc := by cases hc
  accepted i challenge record m epoch he := by cases he
  signed seed cfg challenge he := by cases he
  once := List.nodup_nil

/-- **Whoever is let in was asked and has answered**: whatever anybody sends, each acceptance under
a key that is kept has a signature of its own device over the challenge of the connection, made
after that was sent, for the origin, the tenant, the ids and the version that were accepted. -/
theorem handshakes_authentic (hnonce : opts.nonce = none) (record : Option PairingRecord)
    (acts : List (AuthAction ι))
    (hpossible : Machine.Along (step host isIso opts) (Possible host isIso kept) (fresh record)
      acts) :
    Authentic host kept (Machine.run (step host isIso opts) (fresh record) acts).log := by
  obtain ⟨hrecorded, hlog⟩ := Machine.run_invariant (step host isIso opts)
    (I := fun w : AuthWorld ι => Recorded w ∧ Logged (InOrder host kept) w.log)
    (fun w act hw hact => ⟨recorded_step hnonce hw.1 hact, inOrder_step hnonce hw.1 hw.2 hact⟩)
    ⟨recorded_fresh record, logged_nil⟩ hpossible
  exact ⟨hlog, fun key hkept => subperm_of_inOrder hrecorded hlog hkept⟩

end AuthWorld

/-! ### A handshake on the local port -/

/-- The challenge of the first connection. -/
def localChallenge : AuthChallenge := ⟨js "ch-m-1", toBase64Url (List.replicate 32 5)⟩

theorem isAuthId_localAgent : isAuthId (js "agent-abc") = true := by
  decide

theorem validateTenantId_localTenant : validateTenantId (js "acme") = true := by
  decide

theorem isAuthId_localKey : isAuthId (js "key-aa") = true := by
  decide

theorem isSemVer_localAgent : isSemVer (js "0.0.0") = true := by
  decide

theorem isSemVer_localProtocol : isSemVer (js "2.0.0") = true := by
  decide

def localConfig : DeviceConfig where
  agentId := js "agent-abc"
  agentVersion := js "0.0.0"
  protocolVersion := js "2.0.0"
  projectRoots := []
  agentIdOk := isAuthId_localAgent
  agentVersionOk := isSemVer_localAgent
  protocolVersionOk := isSemVer_localProtocol
  serverUrl := js "ws://127.0.0.1:8787"
  allowDevOrigin := false
  tenantId := js "acme"
  keyId := js "key-aa"
  tenantIdOk := validateTenantId_localTenant
  keyIdOk := isAuthId_localKey

/-- The transcript of the first connection, and its signature under the key of the seed that counts
from 0. -/
def localTranscript : List UInt8 :=
  (buildTranscript (localConfig.transcriptFields localChallenge localConfig.serverUrl)).getD []

def localHelloSignature : List UInt8 :=
  [223, 31, 187, 115, 127, 228, 58, 207, 42, 53, 203, 14, 208, 174, 87, 133, 165, 86, 65, 176, 152,
    98, 112, 184, 143, 171, 226, 244, 142, 192, 226, 80, 33, 190, 178, 243, 204, 128, 128, 113, 91,
    133, 9, 249, 229, 236, 110, 31, 86, 255, 24, 152, 121, 154, 97, 201, 39, 48, 106, 170, 142, 226,
    233, 3]

def handshakeHost : PairingHost :=
  { localHost with
    sign := fun _ transcript =>
      if transcript = localTranscript then localHelloSignature else localSignature
    verify := fun key transcript signature =>
      key = countingKey && transcript = localTranscript && signature = localHelloSignature }

def localRecord : PairingRecord where
  agentId := js "agent-abc"
  keyId := js "key-aa"
  publicKeyHex := js "03a107bff3ce10be1d70dd18e74bc09967e4d6309ba50d5f1ddc8664125531b8"
  tenantId := js "acme"
  serverOrigin := js "ws://127.0.0.1:8787"

def plainRelay : MockRelayOpts where
  heartbeatIntervalMs := none
  supportedVersions := none
  forceNegotiatedVersion := none
  forceEpoch := none
  nonce := none
  resumeFor := none
  stallHandshake := false
  prematureAcceptEpoch := none
  forcedOk _ h := by cases h

def isLocalTime (s : JsString) : Bool := s = js "2026-01-01T00:00:00.000Z"

theorem isAuthId_localChallenge : isAuthId localChallenge.challengeId = true := by
  decide

theorem isEd25519Sig_localHello : isEd25519Sig (toBase64Url localHelloSignature) = true := by
  decide

theorem isId_localArch : isId (js "x64") = true := by
  decide

theorem isId_localHello : isId (js "m-1") = true := by
  decide

theorem isLocalTime_localHello : isLocalTime (js "2026-01-01T00:00:00.000Z") = true := by
  decide

theorem none_ne_empty : (none : Option JsString) ≠ some [] := by
  decide

def localHandshake : Handshake isLocalTime where
  config := localConfig.toAgentConfig
  challengeId := localChallenge.challengeId
  keyId := localConfig.keyId
  signature := toBase64Url localHelloSignature
  platform := .linux
  arch := js "x64"
  claude := ⟨false, none, none, none_ne_empty⟩
  codex := ⟨false, none, none, none_ne_empty⟩
  envelope := ⟨js "m-1", js "2026-01-01T00:00:00.000Z"⟩
  challengeIdOk := isAuthId_localChallenge
  keyIdOk := localConfig.keyIdOk
  signatureOk := isEd25519Sig_localHello
  archOk := isId_localArch
  idOk := isId_localHello
  tsOk := isLocalTime_localHello

/-- The `hello` of the first connection, as bytes. -/
def localHello : List UInt8 := utf8Encode (encodeOutbound (helloMsg localHandshake ⟨[], []⟩))

namespace AuthWorld

/-- The daemon answers the challenge of the first connection, and somebody sends the same bytes on
another. -/
def localActs : List (AuthAction Bool) :=
  [.connect true localChallenge.challengeId (Vector.replicate 32 5),
    .handshake countingSeed localConfig localChallenge,
    .frame true localHello,
    .connect false (js "ch-m-2") (Vector.replicate 32 6),
    .frame false localHello]

theorem mem_step {ι : Type} [DecidableEq ι] {host : PairingHost} {isIso : JsString → Bool}
    {opts : MockRelayOpts} {w : AuthWorld ι} {e : AuthEvent ι} (h : e ∈ w.log) (act : AuthAction ι) :
    e ∈ (w.step host isIso opts act).log := by
  cases act with
  | connect i challengeId random =>
      rw [step]
      split
      · exact h
      · exact List.mem_append_left _ h
  | frame i raw => exact List.mem_append_left _ h
  | setVerifyAuth record => exact h
  | handshake seed cfg challenge =>
      rw [step]
      split
      · exact List.mem_append_left _ h
      · exact h
  | pair seed fields =>
      rw [step]
      split
      · exact List.mem_append_left _ h
      · exact h

theorem transcript?_local :
    localConfig.transcript? handshakeHost.idna localChallenge = some localTranscript := by
  decide +kernel

/-- What verifies has been signed. -/
theorem possible_local {w : AuthWorld Bool}
    (h : .signed countingSeed localConfig localChallenge ∈ w.log) (i : Bool) (raw : List UInt8) :
    Possible handshakeHost isLocalTime (fun key => key = countingKey) w (.frame i raw) := by
  intro m _ key _ transcript hverify
  have hsame : (key = countingKey ∧ transcript = localTranscript) ∧
      fromBase64Url m.signature = localHelloSignature := by
    simpa [handshakeHost] using hverify
  refine ⟨_, h, countingSeed, hsame.1.1.symm, ?_⟩
  rw [hsame.1.2, AuthEvent.transcript?, transcript?_local]
  rfl

theorem local_authentic :
    ((Machine.run (step handshakeHost isLocalTime plainRelay) (fresh (some localRecord))
      localActs).log.filterMap (AuthEvent.acceptedUnder? countingKey)).map
        AuthChallenge.challengeId = [js "ch-m-1"] ∧
    Authentic handshakeHost (fun key => key = countingKey)
      (Machine.run (step handshakeHost isLocalTime plainRelay) (fresh (some localRecord))
        localActs).log := by
  have hsigned : AuthEvent.signed countingSeed localConfig localChallenge ∈
      (Machine.run (step handshakeHost isLocalTime plainRelay) (fresh (some localRecord))
        (localActs.take 2)).log := by
    have hsigns : localChallenge.passes = true ∧
        (localConfig.transcript? handshakeHost.idna localChallenge).isSome = true := by
      rw [transcript?_local]
      exact ⟨by decide +kernel, rfl⟩
    have hlast : ∀ w : AuthWorld Bool,
        AuthEvent.signed countingSeed localConfig localChallenge ∈ (w.step handshakeHost isLocalTime
          plainRelay (.handshake countingSeed localConfig localChallenge)).log := by
      intro w
      rw [step, if_pos hsigns]
      exact List.mem_append_right _ List.mem_cons_self
    exact hlast _
  refine ⟨by decide +kernel, handshakes_authentic rfl (some localRecord) localActs ⟨?_, trivial, ?_,
    ?_, ?_, trivial⟩⟩
  · exact List.forall_mem_nil _
  · exact possible_local hsigned true localHello
  · show ∀ e ∈ (Machine.run (step handshakeHost isLocalTime plainRelay) (fresh (some localRecord))
      (localActs.take 3)).log, e.nonce? ≠ some (toBase64Url (List.replicate 32 6))
    decide +kernel
  · exact possible_local (mem_step (mem_step hsigned _) _) false localHello

end AuthWorld

end HuginAgent
