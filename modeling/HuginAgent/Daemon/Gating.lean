/-
Which version a connection speaks.

The version is set twice: in the callback of the socket, as soon as an acceptance is let through,
and by the handshake, once it has found the version good.  The callback goes on for the whole
connection and looks at no more than whether the hello was sent, so an acceptance that comes
later sets the version again, to one that nobody has looked at.  As long as none comes that
speaks another protocol than the first, messages of a session are decoded and dispatched under a
version that the handshake has let through.
-/
import HuginAgent.Daemon.Delivery

namespace HuginAgent

section

variable (cfg : DialConfig)

/-- A message is dispatched after the handshake, and one of a session under its version only. -/
def GatedOk (before : List ConnectionEvent) : ConnectionEvent → Prop
  | .dispatched msg => ∃ accepted, Passed cfg before accepted ∧
      (msg.type.isSession = true → isProtocolV2 accepted.negotiatedVersion = true)
  | _ => True

structure VersionGated (c : Connection) : Prop where
  dispatch : Logged (GatedOk cfg) c.log
  /-- An established connection speaks the version that the handshake has let through. -/
  version : ∀ accepted, c.stage = .pumping accepted →
    c.client.v2 = isProtocolV2 accepted.negotiatedVersion

end

/-- An acceptance that comes after another one speaks the same protocol. -/
def Steady (c : Connection) : ConnectionAction → Prop
  | .frame frame _ => ∀ accepted, c.client.admits frame = some ⟨.helloAccepted, accepted⟩ →
      c.client.authed = true → isProtocolV2 accepted.negotiatedVersion = c.client.v2
  | _ => True

/-! ### The invariant -/

/-- The client speaks the version of the acceptance. -/
structure Speaks (client : RelayClient) (accepted : HelloAccepted) : Prop where
  authed : client.authed = true
  v2 : client.v2 = isProtocolV2 accepted.negotiatedVersion

structure Admitting (cfg : DialConfig) (c : Connection) : Prop where
  order : Logged (GatedOk cfg) c.log
  early : c.client.authed = false → c.client.v2 = false
  session : ∀ msg ∈ c.client.mail.box.pending, msg.type.isSession = true → c.client.v2 = true
  pump : c.client.mail.box.handlers ≠ [] →
    ∃ accepted, Passed cfg c.log accepted ∧ Speaks c.client accepted
  stage : ∀ accepted, c.stage = .replied ⟨.helloAccepted, accepted⟩ ∨ c.stage = .shaken accepted ∨
    c.stage = .pumping accepted → Speaks c.client accepted

variable {cfg : DialConfig} {c : Connection} {client : RelayClient}

theorem Admitting.note (h : Admitting cfg c) {e : ConnectionEvent} (he : e.dispatched? = none) :
    Admitting cfg (c.note e) where
  order := logged_concat.mpr ⟨h.order, by
    cases e with
    | dispatched msg => exact nomatch he
    | _ => trivial⟩
  early := h.early
  session := h.session
  pump := fun hne => (h.pump hne).imp fun _ hp => ⟨hp.1.mono [e], hp.2⟩
  stage := h.stage

/-- A stage at which no acceptance has been taken. -/
theorem Admitting.at_stage (h : Admitting cfg c) {stage : Stage}
    (hstage : ∀ accepted, stage = .replied ⟨.helloAccepted, accepted⟩ ∨ stage = .shaken accepted ∨
      stage = .pumping accepted → Speaks c.client accepted) :
    Admitting cfg { c with stage } := ⟨h.order, h.early, h.session, h.pump, hstage⟩

theorem Admitting.ended (h : Admitting cfg c) : Admitting cfg { c with stage := .ended } := by
  refine h.at_stage ?_
  rintro accepted (hc | hc | hc) <;> exact nomatch hc

theorem Admitting.inWorld (h : Admitting cfg c) (world : World) : Admitting cfg { c with world } :=
  ⟨h.order, h.early, h.session, h.pump, h.stage⟩

/-- What only takes messages from the buffer, or waiters away. -/
theorem Admitting.shrink (h : Admitting cfg c) {client' : RelayClient} (hauthed : client'.authed = c.client.authed)
    (hv2 : client'.v2 = c.client.v2)
    (hhandlers : client'.mail.box.handlers = c.client.mail.box.handlers)
    (hpending : client'.mail.box.pending.Sublist c.client.mail.box.pending) :
    Admitting cfg { c with client := client' } where
  order := h.order
  early := fun hc => hv2.trans (h.early (hauthed.symm.trans hc))
  session := fun msg hmsg hs => hv2.trans (h.session msg (hpending.subset hmsg) hs)
  pump := fun hne => (h.pump (hhandlers ▸ hne)).imp fun _ hp =>
    ⟨hp.1, hauthed.trans hp.2.authed, hv2.trans hp.2.v2⟩
  stage := fun accepted hstage =>
    ⟨hauthed.trans (h.stage accepted hstage).authed, hv2.trans (h.stage accepted hstage).v2⟩

/-! ### A frame -/

/-- A message that is let through leaves the version alone, or it is the first acceptance. -/
theorem flip_cases (client : RelayClient) (msg : MessageV2) :
    client.flip msg = client ∧ (∀ accepted, msg ≠ ⟨.helloAccepted, accepted⟩) ∨
      ∃ accepted, msg = ⟨.helloAccepted, accepted⟩ ∧ Speaks (client.flip msg) accepted := by
  unfold RelayClient.flip
  split
  · rename_i accepted
    exact Or.inr ⟨accepted, rfl, rfl, rfl⟩
  · rename_i hnot
    exact Or.inl ⟨rfl, hnot⟩

/-- What was true of the version stays true when a message is let through. -/
theorem flip_kept {frame : WireFrame} {msg : MessageV2} (hadmits : client.admits frame = some msg)
    (hsteady : ∀ accepted, client.admits frame = some ⟨.helloAccepted, accepted⟩ →
      client.authed = true → isProtocolV2 accepted.negotiatedVersion = client.v2)
    (hauthed : client.authed = true) :
    (client.flip msg).authed = true ∧ (client.flip msg).v2 = client.v2 := by
  rcases flip_cases client msg with ⟨hsame, -⟩ | ⟨accepted, rfl, hspeaks⟩
  · rw [hsame]
    exact ⟨hauthed, rfl⟩
  · exact ⟨hspeaks.authed, hspeaks.v2.trans (hsteady accepted hadmits hauthed)⟩

theorem admits_session {frame : WireFrame} {msg : MessageV2}
    (h : client.admits frame = some msg) (hsession : msg.type.isSession = true) :
    client.v2 = true ∧ client.flip msg = client := by
  unfold RelayClient.admits at h
  split at h
  · exact nomatch h
  · rename_i decoded hdecoded
    split at h
    · exact nomatch h
    · obtain rfl := Option.some.inj h
      refine ⟨(decodeInbound_ok hdecoded).1 hsession, ?_⟩
      rcases flip_cases client decoded with ⟨hsame, -⟩ | ⟨accepted, rfl, -⟩
      · exact hsame
      · exact nomatch hsession

/-- A message has come in, and is on its way. -/
theorem Admitting.arrive (h : Admitting cfg c) {frame : WireFrame} {msg : MessageV2}
    (hsteady : ∀ accepted, c.client.admits frame = some ⟨.helloAccepted, accepted⟩ →
      c.client.authed = true → isProtocolV2 accepted.negotiatedVersion = c.client.v2)
    (hadmits : c.client.admits frame = some msg)
    (hpending : ∀ m ∈ (c.client.mail.deliver msg).1.box.pending,
      m ∈ c.client.mail.box.pending ∨ m = msg) :
    Admitting cfg ({ c with client :=
      { c.client.flip msg with mail := (c.client.mail.deliver msg).1 } }.note (.arrived msg)) := by
  have hkept := flip_kept hadmits hsteady
  have hspeaks : ∀ {accepted}, Speaks c.client accepted →
      Speaks { c.client.flip msg with mail := (c.client.mail.deliver msg).1 } accepted :=
    fun hs => ⟨(hkept hs.authed).1, (hkept hs.authed).2.trans hs.v2⟩
  have hgate : Admitting cfg { c with client :=
      { c.client.flip msg with mail := (c.client.mail.deliver msg).1 } } := by
    refine ⟨h.order, ?_, ?_, ?_, fun accepted hstage => hspeaks (h.stage accepted hstage)⟩
    · intro hunauthed
      rcases flip_cases c.client msg with ⟨hsame, -⟩ | ⟨accepted, -, hs⟩
      · show (c.client.flip msg).v2 = false
        rw [hsame]
        exact h.early (hsame ▸ hunauthed)
      · exact nomatch hs.authed.symm.trans hunauthed
    · intro m hm hsession
      rcases hpending m hm with hm | rfl
      · have hv2 := h.session m hm hsession
        have hauthed : c.client.authed = true := by
          by_contra hc
          exact nomatch hv2.symm.trans (h.early (Bool.not_eq_true _ ▸ hc))
        exact (hkept hauthed).2.trans hv2
      · obtain ⟨hv2, hsame⟩ := admits_session hadmits hsession
        show (c.client.flip m).v2 = true
        rw [hsame]
        exact hv2
    · intro hne
      rw [Journal.deliver_handlers] at hne
      obtain ⟨accepted, hpassed, hs⟩ := h.pump hne
      exact ⟨accepted, hpassed, hspeaks hs⟩
  exact hgate.note rfl

/-- A message goes to the handler, of a connection that has come through the handshake. -/
theorem Admitting.dispatched (h : Admitting cfg c) {accepted : HelloAccepted} (hpassed : Passed cfg c.log accepted)
    (msgs : List MessageV2)
    (hsession : ∀ msg ∈ msgs, msg.type.isSession = true →
      isProtocolV2 accepted.negotiatedVersion = true) :
    Logged (GatedOk cfg) (c.log ++ msgs.map .dispatched) := by
  have horder := h.order
  generalize c.log = log at horder hpassed
  induction msgs generalizing log with
  | nil => exact (List.append_nil log).symm ▸ horder
  | cons msg rest ih =>
      obtain ⟨hmsg, hrest⟩ := List.forall_mem_cons.mp hsession
      rw [List.map_cons, ← List.singleton_append, ← List.append_assoc]
      refine ih hrest _ (logged_concat.mpr ⟨horder, ?_⟩) (hpassed.mono _)
      exact ⟨accepted, hpassed, hmsg⟩

/-- What the pump is given has been looked at, and the rest stays as it was. -/
theorem Admitting.pumped (h : Admitting cfg c) {c' : Connection} {accepted : HelloAccepted}
    (hpassed : Passed cfg c.log accepted) (msgs : List MessageV2)
    (hsession : ∀ msg ∈ msgs, msg.type.isSession = true →
      isProtocolV2 accepted.negotiatedVersion = true)
    (hclient : c'.client = c.client) (hstage : c'.stage = c.stage)
    (hlog : c'.log = c.log ++ msgs.map .dispatched) : Admitting cfg c' where
  order := hlog ▸ h.dispatched hpassed msgs hsession
  early := hclient ▸ h.early
  session := hclient ▸ h.session
  pump := by
    rw [hclient, hlog]
    exact fun hne => (h.pump hne).imp fun _ hp => ⟨hp.1.mono _, hp.2⟩
  stage := by
    rw [hclient, hstage]
    exact h.stage

theorem gate_onFrame (h : Admitting cfg c) (frame : WireFrame) (reaction : Reaction)
    (hsteady : Steady c (.frame frame reaction)) : Admitting cfg (c.onFrame cfg frame reaction) := by
  rcases onFrame_cases cfg c frame reaction with hsame | ⟨msg, client, hadmits, rfl, hframe⟩
  · rw [hsame]
    exact h
  · rcases Journal.deliver_cases c.client.mail msg with
      ⟨w, hroute, -, hpending, -⟩ | ⟨hroute, hhandlers, hpending, -⟩ | ⟨hroute, hpending, -⟩
    · rw [hroute] at hframe
      simp only at hframe
      have hgate := h.arrive hsteady hadmits fun m hm => Or.inl (hpending ▸ hm)
      rw [hframe]
      rcases wake_cases _ w.id msg with hwake | ⟨waiter, -, hwake⟩ | ⟨waiter, -, hwake⟩
      · rw [hwake]
        exact hgate
      · rw [hwake]
        refine hgate.at_stage ?_
        rintro accepted (hc | hc | hc) <;> exact nomatch hc
      · rw [hwake]
        refine hgate.at_stage ?_
        rintro accepted (hc | hc | hc)
        · obtain rfl := Stage.replied.inj hc
          exact ⟨rfl, rfl⟩
        · exact nomatch hc
        · exact nomatch hc
    · rw [hroute] at hframe
      simp only at hframe
      have hgate := h.arrive hsteady hadmits fun m hm => Or.inl (hpending ▸ hm)
      obtain ⟨accepted, hpassed, hspeaks⟩ := h.pump hhandlers
      obtain ⟨hclient, hstage, hlog⟩ := dispatch_frame cfg
        ({ c with client := { c.client.flip msg with mail := (c.client.mail.deliver msg).1 } }.note
          (.arrived msg)) reaction msg
      rw [hframe]
      refine hgate.pumped (hpassed.mono [.arrived msg]) [msg] ?_ hclient hstage hlog
      intro m hm hsession
      rw [List.mem_singleton.mp hm] at hsession
      exact hspeaks.v2.symm.trans (admits_session hadmits hsession).1
    · rw [hroute] at hframe
      simp only at hframe
      rw [hframe]
      refine h.arrive hsteady hadmits fun m hm => ?_
      rw [hpending] at hm
      exact (List.mem_append.mp hm).imp_right List.mem_singleton.mp

/-! ### The coroutine -/

theorem gate_onTimeout (h : Admitting cfg c) : Admitting cfg c.onTimeout := by
  have hexpire : ∀ waiter, Admitting cfg { c with client := c.client.expire waiter } := fun waiter =>
    h.shrink rfl rfl rfl (List.Sublist.refl _)
  have hfailing : ∀ waiter,
      Admitting cfg { c with client := c.client.expire waiter, stage := .failing } := by
    intro waiter
    refine (hexpire waiter).at_stage ?_
    rintro accepted (hc | hc | hc) <;> exact nomatch hc
  unfold Connection.onTimeout
  split
  · exact hfailing _
  · exact hfailing _
  · exact h

theorem gate_onClose (h : Admitting cfg c) : Admitting cfg c.onClose := by
  have hclosed : Admitting cfg { c with client := c.client.onClose } :=
    h.shrink rfl rfl rfl (List.Sublist.refl _)
  refine ⟨hclosed.order, hclosed.early, hclosed.session, hclosed.pump, ?_⟩
  intro accepted hstage
  refine hclosed.stage accepted ?_
  unfold Connection.onClose at hstage
  simp only at hstage
  split at hstage
  · rcases hstage with hc | hc | hc <;> exact nomatch hc
  · rcases hstage with hc | hc | hc <;> exact nomatch hc
  · rcases hstage with hc | hc | hc <;> exact nomatch hc
  · exact hstage

theorem gate_awaitChallenge (h : Admitting cfg c) : Admitting cfg c.awaitChallenge := by
  obtain ⟨-, -, hhandlers, hpending⟩ := Journal.waitFor_frame c.client.mail isChallenge
  have hwaiting : Admitting cfg { c with client := (c.client.waitFor isChallenge).1 } :=
    h.shrink rfl rfl hhandlers hpending
  refine hwaiting.at_stage ?_
  intro accepted hstage
  split at hstage
  · rcases hstage with hc | hc | hc <;> exact nomatch hc
  · rcases hstage with hc | hc | hc <;> exact nomatch hc

theorem gate_sendHello (h : Admitting cfg c) (hd : Delivers cfg c) {challenge : AuthChallenge}
    (hstage : c.stage = .challenged ⟨.authChallenge, challenge⟩) (k : Continuation) :
    Admitting cfg (c.sendHello cfg k challenge) := by
  have hunarmed := hd.stage
  rw [hstage] at hunarmed
  unfold Connection.sendHello
  split
  · exact h.ended
  · rename_i hello _
    split
    · obtain ⟨-, -, hhandlers, hpending⟩ := Journal.waitFor_frame c.client.mail isReply
      have hsent : Admitting cfg (c.note (.helloSent hello)) := h.note rfl
      have hwaiting : Admitting cfg { c.note (.helloSent hello) with
          client := (c.client.armForAccept.waitFor isReply).1 } :=
        hsent.shrink rfl rfl hhandlers hpending
      refine hwaiting.at_stage ?_
      intro accepted hreplied
      split at hreplied
      · rename_i msg hgot
        rcases hreplied with hc | hc | hc
        · obtain rfl := Stage.replied.inj hc
          exact absurd rfl (hd.flow.premature hunarmed.1 _ (Journal.waitFor_got hgot).1)
        · exact nomatch hc
        · exact nomatch hc
      · rcases hreplied with hc | hc | hc <;> exact nomatch hc
    · exact h.ended

theorem gate_negotiate (h : Admitting cfg c) {accepted : HelloAccepted}
    (hstage : c.stage = .replied ⟨.helloAccepted, accepted⟩) : Admitting cfg (c.negotiate cfg accepted) := by
  obtain ⟨hauthed, hv2⟩ := h.stage accepted (Or.inl hstage)
  unfold Connection.negotiate
  split
  · have hnoted : Admitting cfg (c.note (.negotiated accepted)) := h.note rfl
    have hspeaks : Admitting cfg { c.note (.negotiated accepted) with
        client := (c.client.setNegotiatedVersion accepted.negotiatedVersion).setAuthed true } :=
      hnoted.shrink hauthed.symm hv2.symm rfl (List.Sublist.refl _)
    refine hspeaks.at_stage ?_
    rintro accepted' (hc | hc | hc)
    · exact nomatch hc
    · obtain rfl := Stage.shaken.inj hc
      exact ⟨rfl, rfl⟩
    · exact nomatch hc
  · exact h.ended

theorem gate_resumeAndPump (h : Admitting cfg c) {accepted : HelloAccepted}
    (hversion : Negotiates cfg accepted)
    (htrail : Trail cfg [.arrived ⟨.helloAccepted, accepted⟩, .negotiated accepted,
      .epochAccepted accepted] c.log)
    (hspeaks : Speaks c.client accepted) (k : Continuation) :
    Admitting cfg (c.resumeAndPump cfg k accepted) := by
  unfold Connection.resumeAndPump
  split
  · rename_i world e hresume
    exact (h.inWorld world).ended
  · rename_i world hresume
    have hpassed : Passed cfg (c.log ++ [.resumed accepted]) accepted :=
      ⟨hversion, htrail.extend (.resumed accepted)⟩
    have hresumed : Admitting cfg ({ c with world }.note (.resumed accepted)) := (h.inWorld world).note rfl
    have hpumping : Admitting cfg { { c with world }.note (.resumed accepted) with
        client := (c.client.onMessage 0).1, stage := .pumping accepted } := by
      refine ⟨hresumed.order, h.early, fun _ hm => absurd hm List.not_mem_nil, ?_, ?_⟩
      · exact fun _ => ⟨accepted, hpassed, hspeaks.authed, hspeaks.v2⟩
      · rintro accepted' (hc | hc | hc)
        · exact nomatch hc
        · exact nomatch hc
        · obtain rfl := Stage.pumping.inj hc
          exact ⟨hspeaks.authed, hspeaks.v2⟩
    obtain ⟨hclient, hstage, hlog⟩ := dispatchAll_frame cfg k
      { { c with world }.note (.resumed accepted) with
        client := (c.client.onMessage 0).1, stage := .pumping accepted } (c.client.onMessage 0).2
    refine hpumping.pumped hpassed _ ?_ hclient hstage hlog
    intro msg hmsg hsession
    exact hspeaks.v2.symm.trans (h.session msg hmsg hsession)

theorem gate_establish (h : Admitting cfg c) (hd : Delivers cfg c) {accepted : HelloAccepted}
    (hstage : c.stage = .shaken accepted) (k : Continuation) :
    Admitting cfg (c.establish cfg k accepted) := by
  have hshaken := hd.stage
  rw [hstage] at hshaken
  obtain ⟨hversion, htrail⟩ := hshaken
  unfold Connection.establish
  split
  · exact h.ended
  · have hepoch : Admitting cfg
        ({ c with lastEpoch := accepted.connectionEpoch }.note (.epochAccepted accepted)) :=
      Admitting.note (c := { c with lastEpoch := accepted.connectionEpoch })
        ⟨h.order, h.early, h.session, h.pump, h.stage⟩ rfl
    simp only
    split
    · refine gate_resumeAndPump hepoch hversion (htrail.extend (.epochAccepted accepted)) ?_ k
      exact h.stage accepted (Or.inr (Or.inl hstage))
    · exact hepoch.ended

theorem gate_proceed (h : Admitting cfg c) (hd : Delivers cfg c) (k : Continuation) :
    Admitting cfg (c.proceed cfg k) := by
  unfold Connection.proceed
  split
  · exact gate_awaitChallenge h
  · rename_i hstage
    exact gate_sendHello h hd hstage k
  · exact h.ended
  · rename_i hstage
    exact gate_negotiate h hstage
  · exact h.ended
  · exact h.ended
  · rename_i hstage
    exact gate_establish h hd hstage k
  · exact h

theorem gate_step (h : Admitting cfg c) (hd : Delivers cfg c) {act : ConnectionAction}
    (hsteady : Steady c act) : Admitting cfg (c.step cfg act) := by
  cases act with
  | opened =>
      simp only [Connection.step]
      split
      · refine h.at_stage ?_
        rintro accepted (hc | hc | hc) <;> cases hc
      · exact h
  | frame frame reaction =>
      simp only [Connection.step]
      split
      · exact h
      · exact gate_onFrame h frame reaction hsteady
  | timeout => exact gate_onTimeout h
  | proceed k => exact gate_proceed h hd k
  | closed => exact gate_onClose h
  | internal act =>
      simp only [Connection.step]
      split
      · exact h.inWorld _
      · exact h
  | stop => exact ⟨h.order, h.early, h.session, h.pump, h.stage⟩

theorem gate_start (cfg : DialConfig) (before : List Action) (running : Bool)
    (lastEpoch : Int) : Admitting cfg (.start cfg before running lastEpoch) where
  order := logged_nil
  early := fun _ => rfl
  session := fun _ hm => absurd hm List.not_mem_nil
  pump := fun hne => absurd rfl hne
  stage := by rintro accepted (hc | hc | hc) <;> exact nomatch hc

/-- **A connection speaks the version that its handshake has let through**, in every run in which no
acceptance comes after the first that speaks another protocol. -/
theorem versionGated (cfg : DialConfig) (before : List Action) (running : Bool) (lastEpoch : Int)
    (acts : List ConnectionAction)
    (h : Machine.Along (Connection.step cfg) Steady (.start cfg before running lastEpoch) acts) :
    VersionGated cfg (connectionAfter cfg before running lastEpoch acts) := by
  have hgate := Machine.run_invariant (I := fun c => Delivers cfg c ∧ Admitting cfg c) (Connection.step cfg)
    (fun _ act hc hsteady => ⟨delivers_step hc.1 act, gate_step hc.2 hc.1 hsteady⟩)
    ⟨delivers_start cfg before running lastEpoch, gate_start cfg before running lastEpoch⟩ h
  exact ⟨hgate.2.order, fun accepted hstage =>
    (hgate.2.stage accepted (Or.inr (Or.inr hstage))).v2⟩

/-! ### A relay that accepts twice -/

def sampleDial : DialConfig where
  env := sampleEnv sampleDigest .limits
  protocolVersion := js "1.0.0"
  signedHello := fun _ => some [(js "type", .lit "hello")]

def sampleReaction : Reaction := ⟨⟨none, false⟩, []⟩

def sampleContinuation : Continuation := ⟨true, fun _ => sampleReaction, fun _ => []⟩

def sampleFrame (msg : MessageV2) : ConnectionAction := .frame ⟨0, some msg⟩ sampleReaction

/-- The relay accepts the first version, and the daemon pumps. -/
def sampleEstablished : List ConnectionAction :=
  [.opened, .proceed sampleContinuation,
    sampleFrame ⟨.authChallenge, ⟨js "c", js "n"⟩⟩, .proceed sampleContinuation,
    sampleFrame ⟨.helloAccepted, ⟨js "1.0.0", by decide, 1, 1000, []⟩⟩,
    .proceed sampleContinuation, .proceed sampleContinuation]

/-- It accepts again, the second version, and asks for a list of sessions. -/
def sampleAcceptedTwice : List ConnectionAction :=
  sampleEstablished ++
    [sampleFrame ⟨.helloAccepted, ⟨js "2.0.0", by decide, 2, 1000, []⟩⟩,
      sampleFrame ⟨.sessionListRequest, ()⟩]

theorem versionGated_established :
    VersionGated sampleDial (connectionAfter sampleDial [] true 0 sampleEstablished) := by
  refine versionGated sampleDial [] true 0 sampleEstablished ?_
  refine ⟨trivial, trivial, ?_, trivial, ?_, trivial, trivial, trivial⟩
  · intro accepted hadmits
    exact nomatch hadmits
  · intro accepted _ hauthed
    exact nomatch hauthed

theorem acceptance_flips_version :
    ¬ ∀ (cfg : DialConfig) (before : List Action) (running : Bool) (lastEpoch : Int)
      (acts : List ConnectionAction),
      VersionGated cfg (connectionAfter cfg before running lastEpoch acts) := by
  intro hall
  have hgated := (hall sampleDial [] true 0 sampleAcceptedTwice).version
    ⟨js "1.0.0", by decide, 1, 1000, []⟩ (by rfl)
  have hflipped : (connectionAfter sampleDial [] true 0 sampleAcceptedTwice).client.v2 = true := by
    decide +kernel
  rw [hflipped] at hgated
  exact absurd hgated (by decide)

end HuginAgent
