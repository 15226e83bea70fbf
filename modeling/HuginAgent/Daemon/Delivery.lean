/-
What comes in gets to the manager in order, and after the resume.

The client routes a message to a waiter, to the pump or to its buffer, and the pump is
registered after the handshake and the resume only.  The log says so: a message is dispatched
after a challenge, the hello that answers it, an acceptance that came after the hello, its
version, its epoch and its directives, in this order.  So the lease that the manager holds for
an attempt is the last that the server has sent: what a directive names is applied before any
`lease.granted` that came in the meantime.
-/
import HuginAgent.Daemon.Pump

namespace HuginAgent

namespace ConnectionEvent

def arrived? : ConnectionEvent → Option MessageV2
  | .arrived msg => some msg
  | _ => none

def dispatched? : ConnectionEvent → Option MessageV2
  | .dispatched msg => some msg
  | _ => none

/-- The leases that the server sends for the attempt, in order. -/
def leases (attemptId : JsString) : ConnectionEvent → List JsString
  | .resumed accepted =>
      accepted.resume.filterMap fun d => (Action.resume d []).namesLease attemptId
  | .dispatched ⟨.leaseGranted, msg⟩ => ((Action.leaseGranted msg).namesLease attemptId).toList
  | _ => []

/-- The attempt is assigned anew. -/
def assigns (attemptId : JsString) : ConnectionEvent → Bool
  | .dispatched ⟨.jobAssign, msg⟩ => msg.attemptId = attemptId
  | _ => false

end ConnectionEvent

/-- The lease that the server sent last. -/
def lastLease (attemptId : JsString) (log : List ConnectionEvent) : Option JsString :=
  (log.flatMap fun e => e.leases attemptId).getLast?

section

variable (cfg : DialConfig)

/-- After a challenge and the hello that answers it, these events have happened in this order. -/
def Trail (tail log : List ConnectionEvent) : Prop :=
  ∃ challenge hello, cfg.signedHello challenge = some hello ∧
    (.arrived ⟨.authChallenge, challenge⟩ :: .helloSent hello :: tail).Sublist log

/-- The version of the acceptance is one that `performHandshake` lets through. -/
def Negotiates (accepted : HelloAccepted) : Prop :=
  negotiateVersion cfg.protocolVersion [accepted.negotiatedVersion] =
    some accepted.negotiatedVersion

/-- The handshake is through with this acceptance, and so is the resume. -/
structure Passed (log : List ConnectionEvent) (accepted : HelloAccepted) : Prop where
  version : Negotiates cfg accepted
  trail : Trail cfg [.arrived ⟨.helloAccepted, accepted⟩, .negotiated accepted,
    .epochAccepted accepted, .resumed accepted] log

/-- A message is dispatched after all that only. -/
def DispatchOk (before : List ConnectionEvent) : ConnectionEvent → Prop
  | .dispatched _ => ∃ accepted, Passed cfg before accepted
  | _ => True

/-! ### The invariant -/

/-- The client and the log belong together. -/
structure MailFlow (client : RelayClient) (log : List ConnectionEvent) : Prop where
  order : Logged (DispatchOk cfg) log
  mail : client.mail.Kept
  arrivals : log.filterMap ConnectionEvent.arrived? = client.mail.arrived
  dispatches : log.filterMap ConnectionEvent.dispatched? = client.mail.handed.map Prod.snd
  pump : client.mail.box.handlers ≠ [] → ∃ accepted, Passed cfg log accepted
  /-- An acceptance that comes before the hello is not kept. -/
  premature : client.armedForAccept = false →
    ∀ msg ∈ client.mail.box.pending, msg.type ≠ .helloAccepted

/-- How far the log has got at a stage. -/
def StageOk (log : List ConnectionEvent) (armed : Bool) : Stage → Prop
  | .dialing | .opened | .awaitingChallenge _ => armed = false
  | .challenged msg => armed = false ∧ .arrived msg ∈ log
  | .awaitingReply _ => Trail cfg [] log
  | .replied msg => ∀ accepted, msg = ⟨.helloAccepted, accepted⟩ → Trail cfg [.arrived msg] log
  | .shaken accepted =>
      Negotiates cfg accepted ∧
        Trail cfg [.arrived ⟨.helloAccepted, accepted⟩, .negotiated accepted] log
  | .pumping accepted => Passed cfg log accepted
  | .failing | .ended => True

structure Delivers (c : Connection) : Prop where
  flow : MailFlow cfg c.client c.log
  stage : StageOk cfg c.log c.client.armedForAccept c.stage

end

variable {cfg : DialConfig} {c : Connection} {client : RelayClient} {log : List ConnectionEvent}

/-! ### Trails -/

theorem Trail.mono {tail : List ConnectionEvent} (h : Trail cfg tail log)
    (more : List ConnectionEvent) : Trail cfg tail (log ++ more) := by
  obtain ⟨challenge, hello, hhello, hsub⟩ := h
  exact ⟨challenge, hello, hhello, hsub.trans (List.sublist_append_left _ _)⟩

theorem Trail.extend {tail : List ConnectionEvent} (h : Trail cfg tail log)
    (e : ConnectionEvent) : Trail cfg (tail ++ [e]) (log ++ [e]) := by
  obtain ⟨challenge, hello, hhello, hsub⟩ := h
  exact ⟨challenge, hello, hhello, hsub.append_right [e]⟩

theorem Passed.mono {accepted : HelloAccepted} (h : Passed cfg log accepted)
    (more : List ConnectionEvent) : Passed cfg (log ++ more) accepted :=
  ⟨h.version, h.trail.mono more⟩

theorem StageOk.mono {armed : Bool} {stage : Stage} (h : StageOk cfg log armed stage)
    (more : List ConnectionEvent) : StageOk cfg (log ++ more) armed stage := by
  cases stage with
  | challenged msg => exact ⟨h.1, List.mem_append_left _ h.2⟩
  | awaitingReply waiter => exact Trail.mono h more
  | replied msg => exact fun accepted hmsg => Trail.mono (h accepted hmsg) more
  | shaken accepted => exact ⟨h.1, Trail.mono h.2 more⟩
  | pumping accepted => exact Passed.mono h more
  | dialing => exact h
  | opened => exact h
  | awaitingChallenge waiter => exact h
  | failing => trivial
  | ended => trivial

/-! ### The client and the log -/

/-- Something is written down that is neither an arrival nor a dispatch. -/
theorem MailFlow.note (h : MailFlow cfg client log) {e : ConnectionEvent} (harrived : e.arrived? = none)
    (hdispatched : e.dispatched? = none) : MailFlow cfg client (log ++ [e]) where
  order := logged_concat.mpr ⟨h.order, by
    cases e with
    | dispatched msg => exact nomatch hdispatched
    | _ => trivial⟩
  mail := h.mail
  arrivals := by
    rw [List.filterMap_append, h.arrivals, List.filterMap_cons_none harrived]
    exact List.append_nil _
  dispatches := by
    rw [List.filterMap_append, h.dispatches, List.filterMap_cons_none hdispatched]
    exact List.append_nil _
  pump := fun hne => (h.pump hne).imp fun _ hp => hp.mono [e]
  premature := h.premature

/-- What only takes messages from the buffer, or waiters away. -/
theorem MailFlow.shrink (h : MailFlow cfg client log) {client' : RelayClient} (hkept : client'.mail.Kept)
    (harrived : client'.mail.arrived = client.mail.arrived)
    (hhanded : client'.mail.handed = client.mail.handed)
    (hhandlers : client'.mail.box.handlers = client.mail.box.handlers)
    (hpending : client'.mail.box.pending.Sublist client.mail.box.pending)
    (harmed : client'.armedForAccept = false → client.armedForAccept = false) :
    MailFlow cfg client' log where
  order := h.order
  mail := hkept
  arrivals := h.arrivals.trans harrived.symm
  dispatches := by rw [h.dispatches, hhanded]
  pump := fun hne => h.pump (hhandlers ▸ hne)
  premature := fun hunarmed msg hmsg => h.premature (harmed hunarmed) msg (hpending.subset hmsg)

theorem MailFlow.waitFor (h : MailFlow cfg client log) (wants : MessageV2 → Bool) :
    MailFlow cfg (client.waitFor wants).1 log := by
  obtain ⟨harrived, hhanded, hhandlers, hpending⟩ := Journal.waitFor_frame client.mail wants
  exact h.shrink (Journal.kept_waitFor h.mail wants) harrived hhanded hhandlers hpending id

/-- A message that is kept has arrived. -/
theorem MailFlow.arrived_of_pending (h : MailFlow cfg client log) {msg : MessageV2}
    (hmsg : msg ∈ client.mail.box.pending) : .arrived msg ∈ log := by
  have harrived : msg ∈ client.mail.arrived :=
    h.mail.inOrder.subset (List.mem_append_right _ hmsg)
  rw [← h.arrivals] at harrived
  obtain ⟨e, he, hsome⟩ := List.mem_filterMap.mp harrived
  cases e with
  | arrived msg' => exact Option.some.inj hsome ▸ he
  | _ => exact nomatch hsome

/-- An acceptance gets through only to an armed client. -/
theorem admits_accepted {frame : WireFrame} {msg : MessageV2}
    (h : client.admits frame = some msg) (hunarmed : client.armedForAccept = false) :
    msg.type ≠ .helloAccepted := by
  unfold RelayClient.admits at h
  split at h
  · exact nomatch h
  · split at h
    · exact nomatch h
    · rename_i hnot
      obtain rfl := Option.some.inj h
      exact fun htype => hnot ⟨htype, hunarmed⟩

theorem flip_armed (msg : MessageV2) : (client.flip msg).armedForAccept = client.armedForAccept := by
  unfold RelayClient.flip
  split <;> rfl

/-- What the callback of the socket makes of a frame. -/
theorem onFrame_cases (cfg : DialConfig) (c : Connection) (frame : WireFrame)
    (reaction : Reaction) :
    c.onFrame cfg frame reaction = c ∨
      ∃ msg client, c.client.admits frame = some msg ∧
        client = { c.client.flip msg with mail := (c.client.mail.deliver msg).1 } ∧
        c.onFrame cfg frame reaction =
          match (c.client.mail.deliver msg).2 with
          | .taken w => ({ c with client }.note (.arrived msg)).wake w.id msg
          | .handed _ => ({ c with client }.note (.arrived msg)).dispatch cfg reaction msg
          | .kept => { c with client }.note (.arrived msg) := by
  unfold Connection.onFrame RelayClient.onFrame
  cases hadmits : c.client.admits frame with
  | none => exact Or.inl rfl
  | some msg =>
      refine Or.inr ⟨msg, _, rfl, rfl, ?_⟩
      cases hplace : (c.client.mail.deliver msg).2 <;>
        simp only [RelayClient.flip_mail, hplace]

theorem logged_dispatched (h : Logged (DispatchOk cfg) log) {accepted : HelloAccepted}
    (hpassed : Passed cfg log accepted) (msgs : List MessageV2) :
    Logged (DispatchOk cfg) (log ++ msgs.map .dispatched) := by
  induction msgs generalizing log with
  | nil => exact (List.append_nil log).symm ▸ h
  | cons msg rest ih =>
      rw [List.map_cons, ← List.singleton_append, ← List.append_assoc]
      exact ih (logged_concat.mpr ⟨h, accepted, hpassed⟩) (hpassed.mono _)

/-! ### A frame -/

section

variable {frame : WireFrame} {msg : MessageV2}

/-- A message arrives, and is taken or kept. -/
theorem MailFlow.arrive (h : MailFlow cfg client log) (hadmits : client.admits frame = some msg)
    (hhanded : (client.mail.deliver msg).1.handed = client.mail.handed)
    (hpending : ∀ m ∈ (client.mail.deliver msg).1.box.pending,
      m ∈ client.mail.box.pending ∨ m = msg) :
    MailFlow cfg { client.flip msg with mail := (client.mail.deliver msg).1 } (log ++ [.arrived msg])
    where
  order := logged_concat.mpr ⟨h.order, trivial⟩
  mail := Journal.kept_deliver h.mail msg
  arrivals := by
    rw [List.filterMap_append, h.arrivals]
    exact (Journal.deliver_arrived client.mail msg).symm
  dispatches := by
    rw [List.filterMap_append, h.dispatches, hhanded]
    exact List.append_nil _
  pump := by
    intro hne
    rw [Journal.deliver_handlers] at hne
    exact (h.pump hne).imp fun _ hp => hp.mono _
  premature := by
    intro hunarmed m hm
    rw [flip_armed] at hunarmed
    rcases hpending m hm with hm | rfl
    · exact h.premature hunarmed m hm
    · exact admits_accepted hadmits hunarmed

/-- A message arrives and is handed to the pump. -/
theorem MailFlow.arriveHanded (h : MailFlow cfg client log) {accepted : HelloAccepted}
    (hpassed : Passed cfg log accepted) {handlers : List Nat}
    (hhanded : (client.mail.deliver msg).1.handed = client.mail.handed ++ [(handlers, msg)])
    (hpending : (client.mail.deliver msg).1.box.pending = client.mail.box.pending) :
    MailFlow cfg { client.flip msg with mail := (client.mail.deliver msg).1 }
      (log ++ [.arrived msg] ++ [.dispatched msg]) where
  order := by
    have harrived : Logged (DispatchOk cfg) (log ++ [.arrived msg]) :=
      logged_concat.mpr ⟨h.order, trivial⟩
    exact logged_dispatched harrived (hpassed.mono _) [msg]
  mail := Journal.kept_deliver h.mail msg
  arrivals := by
    rw [List.filterMap_append, List.filterMap_append, h.arrivals]
    exact (List.append_nil _).trans (Journal.deliver_arrived client.mail msg).symm
  dispatches := by
    rw [List.filterMap_append, List.filterMap_append, h.dispatches, hhanded, List.map_append]
    exact congrArg (· ++ [msg]) (List.append_nil _)
  pump := fun _ => ⟨accepted, (hpassed.mono _).mono _⟩
  premature := by
    intro hunarmed m hm
    rw [flip_armed] at hunarmed
    exact h.premature hunarmed m (hpending ▸ hm)

end

theorem wake_cases (c : Connection) (id : Nat) (msg : MessageV2) :
    c.wake id msg = c ∨
      (∃ waiter, c.stage = .awaitingChallenge waiter ∧
        c.wake id msg = { c with stage := .challenged msg }) ∨
      ∃ waiter, c.stage = .awaitingReply waiter ∧ c.wake id msg = { c with stage := .replied msg } := by
  unfold Connection.wake
  split
  · rename_i waiter hstage
    split
    · exact Or.inr (Or.inl ⟨waiter, hstage, rfl⟩)
    · exact Or.inl rfl
  · rename_i waiter hstage
    split
    · exact Or.inr (Or.inr ⟨waiter, hstage, rfl⟩)
    · exact Or.inl rfl
  · exact Or.inl rfl

theorem dispatch_frame (cfg : DialConfig) (c : Connection) (reaction : Reaction)
    (msg : MessageV2) :
    (c.dispatch cfg reaction msg).client = c.client ∧
      (c.dispatch cfg reaction msg).stage = c.stage ∧
      (c.dispatch cfg reaction msg).log = c.log ++ [.dispatched msg] := by
  unfold Connection.dispatch
  simp only
  split <;> exact ⟨rfl, rfl, rfl⟩

theorem dispatchAll_frame (cfg : DialConfig) (k : Continuation) (c : Connection)
    (msgs : List MessageV2) :
    (c.dispatchAll cfg k msgs).client = c.client ∧ (c.dispatchAll cfg k msgs).stage = c.stage ∧
      (c.dispatchAll cfg k msgs).log = c.log ++ msgs.map .dispatched := by
  induction msgs generalizing c with
  | nil => exact ⟨rfl, rfl, (List.append_nil _).symm⟩
  | cons msg rest ih =>
      obtain ⟨hclient, hstage, hlog⟩ := ih (c.dispatch cfg (k.reactions rest.length) msg)
      obtain ⟨hclient', hstage', hlog'⟩ :=
        dispatch_frame cfg c (k.reactions rest.length) msg
      refine ⟨hclient.trans hclient', hstage.trans hstage', hlog.trans ?_⟩
      rw [hlog', List.append_assoc]
      rfl

theorem delivers_onFrame (h : Delivers cfg c) (frame : WireFrame) (reaction : Reaction) :
    Delivers cfg (c.onFrame cfg frame reaction) := by
  rcases onFrame_cases cfg c frame reaction with hsame | ⟨msg, client, hadmits, rfl, hframe⟩
  · rw [hsame]
    exact h
  · have hstage := h.stage.mono [.arrived msg]
    rw [← flip_armed msg] at hstage
    rcases Journal.deliver_cases c.client.mail msg with
      ⟨w, hroute, hwants, hpending, hhanded⟩ | ⟨hroute, hhandlers, hpending, hhanded⟩ |
      ⟨hroute, hpending, hhanded⟩
    · rw [hroute] at hframe
      simp only at hframe
      have hflow := h.flow.arrive hadmits hhanded fun m hm => Or.inl (hpending ▸ hm)
      rw [hframe]
      rcases wake_cases _ w.id msg with hwake | ⟨waiter, hwait, hwake⟩ | ⟨waiter, hwait, hwake⟩
      · rw [hwake]
        exact ⟨hflow, hstage⟩
      · rw [hwake]
        refine ⟨hflow, ?_, List.mem_append_right _ (List.mem_singleton_self _)⟩
        have hunarmed := h.stage
        rw [show c.stage = .awaitingChallenge waiter from hwait] at hunarmed
        exact (flip_armed msg).trans hunarmed
      · rw [hwake]
        refine ⟨hflow, ?_⟩
        have htrail := h.stage
        rw [show c.stage = .awaitingReply waiter from hwait] at htrail
        exact fun accepted hmsg => Trail.extend htrail (.arrived msg)
    · rw [hroute] at hframe
      simp only at hframe
      obtain ⟨accepted, hpassed⟩ := h.flow.pump hhandlers
      have hflow := h.flow.arriveHanded hpassed hhanded hpending
      obtain ⟨hclient, hstage', hlog⟩ := dispatch_frame cfg
        ({ c with client := { c.client.flip msg with mail := (c.client.mail.deliver msg).1 } }.note
          (.arrived msg)) reaction msg
      rw [hframe]
      refine ⟨?_, ?_⟩
      · rw [hclient, hlog]
        exact hflow
      · rw [hclient, hlog, hstage']
        exact hstage.mono [.dispatched msg]
    · rw [hroute] at hframe
      simp only at hframe
      rw [hframe]
      refine ⟨h.flow.arrive hadmits hhanded fun m hm => ?_, hstage⟩
      rw [hpending] at hm
      exact (List.mem_append.mp hm).imp_right List.mem_singleton.mp

/-! ### The coroutine -/

theorem delivers_ended (h : MailFlow cfg c.client c.log) : Delivers cfg { c with stage := .ended } :=
  ⟨h, trivial⟩

theorem delivers_onTimeout (h : Delivers cfg c) : Delivers cfg c.onTimeout := by
  have hexpire : ∀ waiter, MailFlow cfg (c.client.expire waiter) c.log := fun waiter =>
    h.flow.shrink (Journal.kept_expire h.flow.mail waiter) rfl rfl rfl (List.Sublist.refl _) id
  unfold Connection.onTimeout
  split
  · exact ⟨hexpire _, trivial⟩
  · exact ⟨hexpire _, trivial⟩
  · exact h

theorem delivers_onClose (h : Delivers cfg c) : Delivers cfg c.onClose := by
  have hflow : MailFlow cfg c.client.onClose c.log :=
    h.flow.shrink (Journal.kept_close h.flow.mail) rfl rfl rfl (List.Sublist.refl _) id
  refine ⟨hflow, ?_⟩
  unfold Connection.onClose
  simp only
  split
  · trivial
  · trivial
  · trivial
  · exact h.stage

theorem delivers_awaitChallenge (h : Delivers cfg c) (hstage : c.stage = .opened) :
    Delivers cfg c.awaitChallenge := by
  have hunarmed := h.stage
  rw [hstage] at hunarmed
  refine ⟨h.flow.waitFor isChallenge, ?_⟩
  rw [Connection.awaitChallenge]
  rcases hw : c.client.waitFor isChallenge with ⟨client, w, got⟩
  have harmed : c.client.armedForAccept = client.armedForAccept :=
    congrArg (fun r => r.1.armedForAccept) hw
  rw [harmed] at hunarmed
  cases got with
  | some msg =>
      have hgot : (c.client.mail.waitFor isChallenge).2.2 = some msg := congrArg (fun r => r.2.2) hw
      exact ⟨hunarmed, h.flow.arrived_of_pending (Journal.waitFor_got hgot).1⟩
  | none => exact hunarmed

theorem delivers_sendHello (h : Delivers cfg c) {challenge : AuthChallenge}
    (hstage : c.stage = .challenged ⟨.authChallenge, challenge⟩) (k : Continuation) :
    Delivers cfg (c.sendHello cfg k challenge) := by
  have hchallenged := h.stage
  rw [hstage] at hchallenged
  obtain ⟨hunarmed, harrived⟩ := hchallenged
  unfold Connection.sendHello
  split
  · exact delivers_ended h.flow
  · rename_i hello hhello
    split
    · have hflow : MailFlow cfg c.client.armForAccept (c.log ++ [.helloSent hello]) :=
        (h.flow.note rfl rfl).shrink h.flow.mail rfl rfl rfl (List.Sublist.refl _)
          (by intro hc; cases hc)
      have htrail : Trail cfg [] (c.log ++ [.helloSent hello]) := by
        refine ⟨challenge, hello, hhello, ?_⟩
        exact (List.singleton_sublist.mpr harrived).append_right [.helloSent hello]
      refine ⟨hflow.waitFor isReply, ?_⟩
      dsimp only [Connection.note]
      rcases hw : c.client.armForAccept.waitFor isReply with ⟨client, w, got⟩
      cases got with
      | some msg =>
          have hgot : (c.client.mail.waitFor isReply).2.2 = some msg := congrArg (fun r => r.2.2) hw
          intro accepted hmsg
          have hpremature := h.flow.premature hunarmed msg (Journal.waitFor_got hgot).1
          exact absurd (congrArg MessageV2.type hmsg) hpremature
      | none => exact htrail
    · exact delivers_ended h.flow

theorem delivers_negotiate (h : Delivers cfg c) {accepted : HelloAccepted}
    (hstage : c.stage = .replied ⟨.helloAccepted, accepted⟩) :
    Delivers cfg (c.negotiate cfg accepted) := by
  have htrail := h.stage
  rw [hstage] at htrail
  unfold Connection.negotiate
  split
  · rename_i hversion
    refine ⟨?_, hversion, (htrail accepted rfl).extend (.negotiated accepted)⟩
    exact (h.flow.note (e := .negotiated accepted) rfl rfl).shrink h.flow.mail rfl rfl rfl
      (List.Sublist.refl _) id
  · exact delivers_ended h.flow

/-- The pump is registered, and given what was kept. -/
theorem MailFlow.pumped (h : MailFlow cfg client log) {accepted : HelloAccepted}
    (hpassed : Passed cfg log accepted) (handler : Nat) :
    MailFlow cfg (client.onMessage handler).1
      (log ++ (client.onMessage handler).2.map .dispatched) where
  order := logged_dispatched h.order hpassed _
  mail := Journal.kept_onMessage h.mail handler
  arrivals := by
    have hnone : (((client.onMessage handler).2.map ConnectionEvent.dispatched).filterMap
        ConnectionEvent.arrived?) = [] := by
      rw [List.filterMap_map]
      exact List.filterMap_eq_nil_iff.mpr fun _ _ => rfl
    rw [List.filterMap_append, hnone, List.append_nil]
    exact h.arrivals
  dispatches := by
    have hall : (((client.onMessage handler).2.map ConnectionEvent.dispatched).filterMap
        ConnectionEvent.dispatched?) = (client.onMessage handler).2 := by
      rw [List.filterMap_map]
      exact List.filterMap_some
    rw [List.filterMap_append, h.dispatches, hall]
    show _ = (client.mail.handed ++ client.mail.box.pending.map fun m => ([handler], m)).map Prod.snd
    rw [List.map_append, List.map_map]
    exact congrArg _ (List.map_id _).symm
  pump := fun _ => ⟨accepted, hpassed.mono _⟩
  premature := fun _ _ hm => absurd hm List.not_mem_nil

theorem delivers_dispatchAll (k : Continuation) {msgs : List MessageV2}
    (hflow : MailFlow cfg c.client (c.log ++ msgs.map .dispatched))
    (hstage : StageOk cfg c.log c.client.armedForAccept c.stage) :
    Delivers cfg (c.dispatchAll cfg k msgs) := by
  obtain ⟨hclient', hstage', hlog'⟩ := dispatchAll_frame cfg k c msgs
  refine ⟨?_, ?_⟩
  · rw [hclient', hlog']
    exact hflow
  · rw [hclient', hlog', hstage']
    exact hstage.mono _

theorem delivers_resumeAndPump (h : MailFlow cfg c.client c.log) {accepted : HelloAccepted}
    (hversion : Negotiates cfg accepted)
    (htrail : Trail cfg [.arrived ⟨.helloAccepted, accepted⟩, .negotiated accepted,
      .epochAccepted accepted] c.log) (k : Continuation) :
    Delivers cfg (c.resumeAndPump cfg k accepted) := by
  unfold Connection.resumeAndPump
  split
  · exact ⟨h, trivial⟩
  · rename_i world hresume
    have hpassed : Passed cfg (c.log ++ [.resumed accepted]) accepted :=
      ⟨hversion, htrail.extend (.resumed accepted)⟩
    have hflow := (h.note (e := .resumed accepted) rfl rfl).pumped hpassed 0
    exact delivers_dispatchAll k hflow hpassed

theorem delivers_establish (h : Delivers cfg c) {accepted : HelloAccepted}
    (hstage : c.stage = .shaken accepted) (k : Continuation) :
    Delivers cfg (c.establish cfg k accepted) := by
  have hshaken := h.stage
  rw [hstage] at hshaken
  obtain ⟨hversion, htrail⟩ := hshaken
  unfold Connection.establish
  split
  · exact delivers_ended h.flow
  · have hnote := h.flow.note (e := .epochAccepted accepted) rfl rfl
    simp only
    split
    · have hepoch : Trail cfg [.arrived ⟨.helloAccepted, accepted⟩, .negotiated accepted,
          .epochAccepted accepted] (c.log ++ [.epochAccepted accepted]) := htrail.extend _
      exact delivers_resumeAndPump hnote hversion hepoch k
    · exact ⟨hnote, trivial⟩

theorem delivers_proceed (h : Delivers cfg c) (k : Continuation) :
    Delivers cfg (c.proceed cfg k) := by
  unfold Connection.proceed
  split
  · rename_i hstage
    exact delivers_awaitChallenge h hstage
  · rename_i hstage
    exact delivers_sendHello h hstage k
  · exact delivers_ended h.flow
  · rename_i hstage
    exact delivers_negotiate h hstage
  · exact delivers_ended h.flow
  · exact delivers_ended h.flow
  · rename_i hstage
    exact delivers_establish h hstage k
  · exact h

/-- **Every step keeps the client and the log in order.** -/
theorem delivers_step (h : Delivers cfg c) (act : ConnectionAction) :
    Delivers cfg (c.step cfg act) := by
  cases act with
  | opened =>
      simp only [Connection.step]
      split
      · rename_i hstage
        have hunarmed := h.stage
        rw [hstage] at hunarmed
        exact ⟨h.flow, hunarmed⟩
      · exact h
  | frame frame reaction =>
      simp only [Connection.step]
      split
      · exact h
      · exact delivers_onFrame h frame reaction
  | timeout => exact delivers_onTimeout h
  | proceed k => exact delivers_proceed h k
  | closed => exact delivers_onClose h
  | internal act =>
      simp only [Connection.step]
      split
      · exact ⟨h.flow, h.stage⟩
      · exact h
  | stop => exact ⟨h.flow, h.stage⟩

theorem delivers_start (cfg : DialConfig) (before : List Action) (running : Bool)
    (lastEpoch : Int) : Delivers cfg (.start cfg before running lastEpoch) where
  flow :=
    { order := logged_nil
      mail := Journal.kept_empty
      arrivals := rfl
      dispatches := rfl
      pump := fun hne => absurd rfl hne
      premature := fun _ _ hm => absurd hm List.not_mem_nil }
  stage := rfl

/-! ### Leases -/

/-- Since any time, as long as the attempt is not assigned anew, its lease is the last that the
server has sent since. -/
structure Leased (world : World) (log : List ConnectionEvent) : Prop where
  sound : world.ledger.Sound
  lease : ∀ attemptId earlier since, log = earlier ++ since →
    (∀ e ∈ since, e.assigns attemptId = false) → HasLease world attemptId (lastLease attemptId since)

theorem hasLease_none (w : World) (a : JsString) : HasLease w a none :=
  fun _ _ _ hl => nomatch hl

theorem lastLease_concat (a : JsString) (log : List ConnectionEvent) (e : ConnectionEvent) :
    lastLease a (log ++ [e]) = (e.leases a).getLast?.or (lastLease a log) := by
  rw [lastLease, List.flatMap_append, List.getLast?_append, List.flatMap_cons, List.flatMap_nil,
    List.append_nil]
  rfl

/-- An event and what it does to the manager belong together. -/
theorem Leased.append {world world' : World} (h : Leased world log) {e : ConnectionEvent}
    (hsound : world'.ledger.Sound)
    (hlease : ∀ a lease, e.assigns a = false → HasLease world a lease →
      HasLease world' a ((e.leases a).getLast?.or lease)) :
    Leased world' (log ++ [e]) := by
  refine ⟨hsound, ?_⟩
  intro a earlier since hsplit hassigns
  rcases List.eq_nil_or_concat since with rfl | ⟨since, last, rfl⟩
  · exact hasLease_none world' a
  · rw [List.concat_eq_append, ← List.append_assoc] at hsplit
    obtain ⟨hlog, hlast⟩ := List.append_inj' hsplit rfl
    obtain ⟨rfl, -⟩ := List.cons.inj hlast
    rw [List.concat_eq_append] at hassigns ⊢
    rw [lastLease_concat]
    refine hlease a _ (hassigns _ (List.mem_append_right _ (List.mem_singleton_self _))) ?_
    exact h.lease a earlier since hlog fun e' he' => hassigns e' (List.mem_append_left _ he')

theorem Leased.note {world : World} (h : Leased world log) {e : ConnectionEvent}
    (hnone : ∀ a, e.leases a = []) : Leased world (log ++ [e]) := by
  refine h.append h.sound ?_
  intro a lease _ hlease
  rw [hnone]
  exact hlease

/-- A message that goes to the manager names its lease, or assigns its attempt. -/
theorem managerAction_some {reaction : Reaction} {msg : MessageV2} {act : Action}
    (h : managerAction reaction msg = some act) (a : JsString) :
    act.namesLease a = ((ConnectionEvent.dispatched msg).leases a).getLast? ∧
      act.assigns a = (ConnectionEvent.dispatched msg).assigns a := by
  obtain ⟨type, body⟩ := msg
  cases type <;> simp only [managerAction, Option.some.injEq, reduceCtorEq] at h <;> subst h <;>
    first
      | exact ⟨rfl, rfl⟩
      | exact ⟨by simp only [ConnectionEvent.leases]; cases Action.namesLease a _ <;> rfl, rfl⟩

theorem managerAction_none {reaction : Reaction} {msg : MessageV2}
    (h : managerAction reaction msg = none) (a : JsString) :
    (ConnectionEvent.dispatched msg).leases a = [] := by
  obtain ⟨type, body⟩ := msg
  cases type <;> first | rfl | exact nomatch h

theorem leased_dispatch (h : Leased c.world c.log) (cfg : DialConfig) (reaction : Reaction)
    (msg : MessageV2) :
    Leased (c.dispatch cfg reaction msg).world (c.dispatch cfg reaction msg).log := by
  unfold Connection.dispatch
  simp only
  split
  · rename_i act hact
    refine h.append (sound_step h.sound act) ?_
    intro a lease hassigns hlease
    obtain ⟨hnames, hassigns'⟩ := managerAction_some hact a
    rw [← hnames]
    exact hasLease_step h.sound hlease (hassigns'.trans hassigns)
  · rename_i hact
    exact h.note (managerAction_none hact)

theorem leased_dispatchAll (cfg : DialConfig) (k : Continuation) (msgs : List MessageV2)
    (h : Leased c.world c.log) :
    Leased (c.dispatchAll cfg k msgs).world (c.dispatchAll cfg k msgs).log := by
  induction msgs generalizing c with
  | nil => exact h
  | cons msg rest ih => exact ih (leased_dispatch h cfg (k.reactions rest.length) msg)

/-- The directives leave each attempt the last lease that they name for it. -/
theorem leased_resumed {world world' : World} (h : Leased world log) (cfg : DialConfig)
    (k : Continuation) {accepted : HelloAccepted}
    (hresume : JobManager.applyResume cfg.env world (Connection.directives k accepted) =
      (world', none)) : Leased world' (log ++ [.resumed accepted]) := by
  have hrun := applyResume_eq hresume
  have hacts : ∀ a, ∀ act ∈ (Connection.directives k accepted).map fun d => Action.resume d.1 d.2,
      act.assigns a = false := by
    intro a act hact
    obtain ⟨d, -, rfl⟩ := List.mem_map.mp hact
    rfl
  have hleases : ∀ a, ((Connection.directives k accepted).map fun d =>
      Action.resume d.1 d.2).filterMap (fun act => act.namesLease a) =
      (ConnectionEvent.resumed accepted).leases a := by
    intro a
    rw [Connection.directives, List.map_map, List.filterMap_map, ConnectionEvent.leases]
    conv_rhs => rw [← List.zipIdx_map_fst 0 accepted.resume, List.filterMap_map]
    rfl
  rw [hrun]
  refine h.append (hasLease_run h.sound (hasLease_none world []) _ (hacts [])).1 ?_
  intro a lease _ hlease
  rw [← hleases, ← lastNamed_eq]
  exact (hasLease_run h.sound hlease _ (hacts a)).2

theorem sound_applyResume (env : Env) {w : World} (hs : w.ledger.Sound)
    (ds : List (ResumeDirective × List Callback)) :
    (JobManager.applyResume env w ds).1.ledger.Sound := by
  obtain ⟨done, rest, -, hrun⟩ := applyResume_run env ds w
  rw [hrun]
  exact Machine.run_invariant_all (step env) (I := fun w => w.ledger.Sound)
    (fun _ act h => sound_step h act) hs _

/-- While the connection has not ended, the leases are those of the log.  A resume that throws ends
it. -/
structure Leasing (c : Connection) : Prop where
  sound : c.world.ledger.Sound
  leased : c.stage ≠ .ended → Leased c.world c.log

theorem leasing_of_leased (h : Leased c.world c.log) : Leasing c := ⟨h.sound, fun _ => h⟩

theorem leasing_ended (hs : c.world.ledger.Sound) (hended : c.stage = .ended) : Leasing c :=
  ⟨hs, fun hne => absurd hended hne⟩

/-- What touches neither the manager nor the log. -/
theorem Leasing.of_eq (h : Leasing c) {c' : Connection} (hworld : c'.world = c.world)
    (hlog : c'.log = c.log) (hstage : c'.stage ≠ .ended → c.stage ≠ .ended) : Leasing c' := by
  refine ⟨hworld ▸ h.sound, ?_⟩
  intro hne
  rw [hworld, hlog]
  exact h.leased (hstage hne)

theorem Leasing.arrived (h : Leasing c) {c' : Connection} {msg : MessageV2}
    (hworld : c'.world = c.world) (hlog : c'.log = c.log ++ [.arrived msg])
    (hstage : c'.stage ≠ .ended → c.stage ≠ .ended) : Leasing c' := by
  refine ⟨hworld ▸ h.sound, ?_⟩
  intro hne
  rw [hworld, hlog]
  exact (h.leased (hstage hne)).note fun _ => rfl

theorem Leasing.dispatch (h : Leasing c) (cfg : DialConfig) (reaction : Reaction)
    (msg : MessageV2) : Leasing (c.dispatch cfg reaction msg) := by
  refine ⟨?_, ?_⟩
  · unfold Connection.dispatch
    simp only
    split
    · exact sound_step h.sound _
    · exact h.sound
  · intro hne
    rw [(dispatch_frame cfg c reaction msg).2.1] at hne
    exact leased_dispatch (h.leased hne) cfg reaction msg

theorem leasing_onFrame (h : Leasing c) (frame : WireFrame) (reaction : Reaction) :
    Leasing (c.onFrame cfg frame reaction) := by
  rcases onFrame_cases cfg c frame reaction with hsame | ⟨msg, client, -, -, hframe⟩
  · rw [hsame]
    exact h
  · have harrived : Leasing ({ c with client }.note (.arrived msg)) := h.arrived rfl rfl id
    rw [hframe]
    split
    · rcases wake_cases ({ c with client }.note (.arrived msg)) _ msg with
        hwake | ⟨waiter, hwait, hwake⟩ | ⟨waiter, hwait, hwake⟩
      · rw [hwake]
        exact harrived
      · rw [hwake]
        exact h.arrived rfl rfl fun _ hc => nomatch hc.symm.trans hwait
      · rw [hwake]
        exact h.arrived rfl rfl fun _ hc => nomatch hc.symm.trans hwait
    · exact harrived.dispatch cfg reaction msg
    · exact harrived

theorem leasing_establish (h : Leasing c) {accepted : HelloAccepted}
    (hstage : c.stage = .shaken accepted) (k : Continuation) :
    Leasing (c.establish cfg k accepted) := by
  have hleased := h.leased (by rw [hstage]; exact Stage.noConfusion)
  unfold Connection.establish
  split
  · exact leasing_ended h.sound rfl
  · simp only
    split
    · have hepoch : Leased c.world (c.log ++ [.epochAccepted accepted]) := hleased.note fun _ => rfl
      unfold Connection.resumeAndPump
      split
      · rename_i world e hresume
        refine leasing_ended ?_ rfl
        have hsound := sound_applyResume cfg.env h.sound (Connection.directives k accepted)
        rw [show JobManager.applyResume cfg.env c.world _ = _ from hresume] at hsound
        exact hsound
      · rename_i world hresume
        exact leasing_of_leased (leased_dispatchAll cfg k _ (leased_resumed hepoch cfg k hresume))
    · exact leasing_ended h.sound rfl

theorem leasing_proceed (h : Leasing c) (k : Continuation) : Leasing (c.proceed cfg k) := by
  unfold Connection.proceed
  split
  · rename_i hstage
    exact h.of_eq rfl rfl fun _ hc => nomatch hstage.symm.trans hc
  · rename_i challenge hstage
    have hleased := h.leased (by rw [hstage]; exact Stage.noConfusion)
    unfold Connection.sendHello
    split
    · exact leasing_ended h.sound rfl
    · split
      · exact leasing_of_leased (hleased.note (e := .helloSent _) fun _ => rfl)
      · exact leasing_ended h.sound rfl
  · exact leasing_ended h.sound rfl
  · rename_i accepted hstage
    have hleased := h.leased (by rw [hstage]; exact Stage.noConfusion)
    unfold Connection.negotiate
    split
    · exact leasing_of_leased (hleased.note (e := .negotiated accepted) fun _ => rfl)
    · exact leasing_ended h.sound rfl
  · exact leasing_ended h.sound rfl
  · exact leasing_ended h.sound rfl
  · rename_i hstage
    exact leasing_establish h hstage k
  · exact h

/-- A callback or a timer names no lease and assigns nothing. -/
theorem Leased.internal {world : World} (h : Leased world log) {env : Env} {act : Action}
    (hact : act.isInternal = true) : Leased (step env world act) log := by
  refine ⟨sound_step h.sound act, ?_⟩
  intro a earlier since hsplit hassigns
  have hnames : act.namesLease a = none ∧ act.assigns a = false := by
    cases act <;> first | exact ⟨rfl, rfl⟩ | exact nomatch hact
  have hnext : HasLease (step env world act) a ((act.namesLease a).or (lastLease a since)) :=
    hasLease_step h.sound (h.lease a earlier since hsplit hassigns) hnames.2
  rwa [hnames.1, Option.none_or] at hnext

theorem leasing_step (h : Leasing c) (act : ConnectionAction) : Leasing (c.step cfg act) := by
  cases act with
  | opened =>
      simp only [Connection.step]
      split
      · rename_i hstage
        exact h.of_eq rfl rfl fun _ hc => nomatch hstage.symm.trans hc
      · exact h
  | frame frame reaction =>
      simp only [Connection.step]
      split
      · exact h
      · exact leasing_onFrame h frame reaction
  | timeout =>
      simp only [Connection.step, Connection.onTimeout]
      split
      · rename_i hstage
        exact h.of_eq rfl rfl fun _ hc => nomatch hstage.symm.trans hc
      · rename_i hstage
        exact h.of_eq rfl rfl fun _ hc => nomatch hstage.symm.trans hc
      · exact h
  | proceed k => exact leasing_proceed h k
  | closed =>
      refine h.of_eq rfl rfl fun hne hc => hne ?_
      simp only [Connection.step, Connection.onClose, hc]
  | internal act =>
      simp only [Connection.step]
      split
      · rename_i hact
        exact ⟨sound_step h.sound act, fun hne => (h.leased hne).internal hact⟩
      · exact h
  | stop => exact h.of_eq rfl rfl id

theorem leasing_start (cfg : DialConfig) (before : List Action) (running : Bool)
    (lastEpoch : Int) : Leasing (.start cfg before running lastEpoch) := by
  refine leasing_of_leased ⟨ledger_sound cfg.env before, ?_⟩
  intro a earlier since hsplit _
  obtain ⟨-, rfl⟩ := List.append_eq_nil_iff.mp hsplit.symm
  exact hasLease_none _ a

/-! ### Every run -/

/-- The connection after a run, over a manager that has gone through some actions before. -/
def connectionAfter (cfg : DialConfig) (before : List Action) (running : Bool) (lastEpoch : Int)
    (acts : List ConnectionAction) : Connection :=
  Machine.run (Connection.step cfg) (.start cfg before running lastEpoch) acts

/-- What holds of a connection at any time. -/
structure DeliversInOrder (cfg : DialConfig) (c : Connection) : Prop where
  mail : c.client.mail.Kept
  /-- The log has all that has arrived, and all that the pump was given. -/
  arrivals : c.log.filterMap ConnectionEvent.arrived? = c.client.mail.arrived
  dispatches : c.log.filterMap ConnectionEvent.dispatched? = c.client.mail.handed.map Prod.snd
  /-- The pump gets a message after the handshake and the resume only. -/
  afterResume : Logged (DispatchOk cfg) c.log
  /-- The lease of a registered attempt is the last that the server has sent. -/
  lease : ∀ accepted, c.stage = .pumping accepted → ∀ attemptId r earlier since leaseId,
    c.log = earlier ++ since → (∀ e ∈ since, e.assigns attemptId = false) →
    c.world.registry.get attemptId = some r → lastLease attemptId since = some leaseId →
    (c.world.jobs r).leaseId = leaseId

theorem deliversInOrder (cfg : DialConfig) (before : List Action) (running : Bool)
    (lastEpoch : Int) (acts : List ConnectionAction) :
    DeliversInOrder cfg (connectionAfter cfg before running lastEpoch acts) := by
  have hdelivers : Delivers cfg (connectionAfter cfg before running lastEpoch acts) :=
    Machine.run_invariant_all (Connection.step cfg) (I := Delivers cfg)
      (fun _ act h => delivers_step h act) (delivers_start cfg before running lastEpoch) acts
  have hleasing : Leasing (connectionAfter cfg before running lastEpoch acts) :=
    Machine.run_invariant_all (Connection.step cfg) (I := Leasing)
      (fun _ act h => leasing_step h act) (leasing_start cfg before running lastEpoch) acts
  refine ⟨hdelivers.flow.mail, hdelivers.flow.arrivals, hdelivers.flow.dispatches,
    hdelivers.flow.order, ?_⟩
  intro accepted hstage a r earlier since leaseId hsplit hassigns hlive hlast
  have hleased := hleasing.leased (by rw [hstage]; exact Stage.noConfusion)
  exact hleased.lease a earlier since hsplit hassigns r hlive leaseId hlast

/-- **What comes in is delivered once and in order, and after the resume**: by the client whatever
is called on it, and over a whole connection of the daemon. -/
theorem inbound_in_order :
    (∀ acts : List RelayClient.ClientAction,
      (Machine.run RelayClient.step .fresh acts).mail.Kept ∧
        (Machine.run RelayClient.step .fresh acts).mail.arrived =
          RelayClient.admitted .fresh acts) ∧
      ∀ cfg before running lastEpoch acts,
        DeliversInOrder cfg (connectionAfter cfg before running lastEpoch acts) := by
  refine ⟨?_, deliversInOrder⟩
  intro acts
  exact ⟨RelayClient.kept_run acts, (RelayClient.arrived_run .fresh acts).trans (List.nil_append _)⟩

end HuginAgent
