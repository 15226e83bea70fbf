/-
The job manager refines the ledger.

`opOf` names the ledger step an action amounts to in a given world, with the same
questions the handler asks, and `step_refines` says that the ledger of the world
after the action is the one that step leads to, its guard included.  From there on
an invariant of ledger steps is an invariant of the manager: `ledger_sound` is the
first.
-/
import HuginAgent.Jobs.Fenced
import HuginAgent.Jobs.Payload
import HuginAgent.Ledger.Effects
import HuginAgent.Ledger.View

namespace HuginAgent

open JobManager Ledger

variable {env : Env} {w : World}

/-! ### The step an action amounts to -/

/-- The registered job that an accepted ack lets go on. -/
def resumedBy (env : Env) (w : World) (msg : StreamAck) : Option Ref :=
  match w.registry.get msg.attemptId with
  | some r =>
      if (w.jobs r).paused &&
          !overCap env (w.store.ackEvents msg.attemptId msg.ackSeq) (w.jobs r).attemptId then
        some r
      else none
  | none => none

/-- The registered job whose lease an adoption changes. -/
def rotatedBy (w : World) (attemptId leaseId : JsString) : Option Ref :=
  match w.registry.get attemptId with
  | some r => if (w.jobs r).leaseId ≠ leaseId then some r else none
  | none => none

/-- The message and the row of an event. -/
def eventMsgOf (env : Env) (w : World) (r : Ref) (ev : EngineEvent) : JsObject :=
  let state := w.jobs r
  streamEvent state.ctx (state.seq + 1) (eventIdOf state.attemptId (state.seq + 1)) ev
    (env.envelope w.draws)

def eventRowOf (env : Env) (w : World) (r : Ref) (ev : EngineEvent) : EventRow where
  attemptId := (w.jobs r).attemptId
  seq := (w.jobs r).seq + 1
  eventId := eventIdOf (w.jobs r).attemptId ((w.jobs r).seq + 1)
  bytes := byteLength (stringifyObject (eventMsgOf env w r ev))
  payload := stringifyObject (eventMsgOf env w r ev)

/-- The message `onDone` builds. -/
def resultMsgOf (env : Env) (w : World) (r : Ref) (outcome : EngineOutcome) : JsObject :=
  resultOf (w.jobs r) outcome
    (w.now - (w.startedAt.lookup (w.jobs r).attemptId).getD w.now) (env.envelope w.draws)

/-- The re-stamped message of a resend, and its row. -/
def resentRow (env : Env) (w : World) (leaseId : JsString) (old : StoredResult) :
    Option StoredResult :=
  match parseObject old.payload with
  | none => none
  | some o =>
      let msg := restamp (some leaseId) o (env.envelope w.draws)
      match resultDigest env.sha256Base64Url msg with
      | .error _ => none
      | .ok digest => some
          { old with
            leaseId
            resultDigest := digest
            payload := stringifyObject msg
            resultSize := byteLength (stringifyObject msg) }

def opOfCallback (env : Env) (w : World) (r : Ref) : Callback → Op
  | .approval _ => .idle
  | .event ev =>
      if r ∈ w.runs ∧ (w.jobs r).fenced = false then
        match w.store.events.insert? (eventRowOf env w r ev) with
        | none => .burn r
        | some events => .event r (eventRowOf env w r ev)
            (overCap env { w.store with events } (w.jobs r).attemptId)
      else .idle
  | .done outcome =>
      if r ∈ w.runs ∧ r ∉ w.ended then
        if (w.jobs r).fenced then .finishFenced r
        else match resultDigest env.sha256Base64Url (resultMsgOf env w r outcome) with
          | .error _ => .finishLost r
          | .ok digest => .finishSaved r
              (storedResultOf (w.jobs r) outcome digest (resultMsgOf env w r outcome))
      else .idle

/-- **The name of the ledger step of an action.** -/
def opOf (env : Env) (w : World) : Action → Op
  | .assign msg reply =>
      if (existing w msg.attemptId).isSome || (refusal env w msg reply).isSome then .idle
      else .accept msg.attemptId msg.leaseId !reply.runThrows
  | .streamAck msg =>
      if leaseOk w (w.registry.get msg.attemptId) msg.attemptId msg.leaseId then
        .ack msg.attemptId msg.ackSeq (resumedBy env w msg)
      else .idle
  | .resultAck msg =>
      if leaseOk w (w.registry.get msg.attemptId) msg.attemptId msg.leaseId &&
          (w.store.ackResult msg.attemptId msg.resultDigest).isSome then
        .settle msg.attemptId
      else .idle
  | .cancel msg =>
      match w.registry.get msg.attemptId with
      | some r => if leaseOk w (some r) msg.attemptId msg.leaseId then .cancel r else .idle
      | none => .idle
  | .approvalResponse _ => .idle
  | .leaseGranted msg =>
      match w.registry.get msg.attemptId with
      | some r => .rotate msg.attemptId msg.leaseId (some r)
      | none => .idle
  | .revoke msg sync =>
      match w.registry.get msg.attemptId with
      | some r =>
          if leaseOk w (some r) msg.attemptId msg.leaseId then
            .revoke msg.attemptId r (endsIn w r sync)
          else .idle
      | none => .idle
  | .resume d sync =>
      match d.action, d.leaseId with
      | .ackPending, _ => .ackPending d.attemptId
      | .abandon, _ => .abandon d.attemptId
          ((w.registry.get d.attemptId).map fun r => (r, endsIn w r sync))
      | .resumeFrom, some leaseId =>
          .rotate d.attemptId leaseId (rotatedBy w d.attemptId leaseId)
      | .resendResult, some leaseId =>
          match (w.store.resultRow d.attemptId).bind (resentRow env w leaseId) with
          | some res => .resend d.attemptId leaseId (rotatedBy w d.attemptId leaseId) res
          | none => .rotate d.attemptId leaseId (rotatedBy w d.attemptId leaseId)
      | _, none => .idle
  | .callback r cb => opOfCallback env w r cb
  | .timer _ => .idle
  | .tick ms => .tick ms
  | .restart => .restart

/-! ### Which action a step belongs to -/

/-- The assignment is new and nothing speaks against it. -/
def accepts (env : Env) (w : World) (msg : JobAssign) (reply : EngineReply) : Bool :=
  (existing w msg.attemptId).isNone && (refusal env w msg reply).isNone

/-- The action makes the manager forget the attempt. -/
def drops (w : World) (a : JsString) : Action → Bool
  | .resultAck msg => msg.attemptId = a && leaseOk w (w.registry.get a) a msg.leaseId &&
      (w.store.ackResult a msg.resultDigest).isSome
  | .revoke msg _ => msg.attemptId = a && (w.registry.get a).isSome &&
      leaseOk w (w.registry.get a) a msg.leaseId
  | .resume d _ => d.attemptId = a && (d.action = .ackPending || d.action = .abandon)
  | _ => false

/-- The action puts the attempt on record. -/
def takesUp (env : Env) (w : World) (a : JsString) : Action → Bool
  | .assign msg reply => msg.attemptId = a && accepts env w msg reply
  | _ => false

theorem takesUp_eq (a : JsString) (act : Action) :
    takesUp env w a act = (opOf env w act).records a := by
  cases act with
  | assign msg reply =>
      simp only [takesUp, accepts, opOf]
      cases existing w msg.attemptId with
      | some found => simp [Op.records]
      | none =>
          cases refusal env w msg reply with
          | some rej => simp [Op.records]
          | none => simp [Op.records]
  | callback r cb =>
      cases cb <;> simp only [takesUp, opOf, opOfCallback] <;> repeat' split
      all_goals rfl
  | _ =>
      simp only [takesUp, opOf]
      repeat' split
      all_goals rfl

theorem drops_eq (env : Env) (a : JsString) (act : Action) :
    drops w a act = (opOf env w act).forgets a := by
  cases act with
  | resultAck msg =>
      simp only [drops, opOf]
      by_cases ha : msg.attemptId = a
      · subst ha
        split
        · rename_i hok
          simpa [Op.forgets] using hok
        · rename_i hok
          simpa [Op.forgets] using hok
      · split <;> simp [Op.forgets, ha]
  | revoke msg sync =>
      simp only [drops, opOf]
      by_cases ha : msg.attemptId = a
      · subst ha
        cases w.registry.get msg.attemptId with
        | none => simp [Op.forgets]
        | some r =>
            simp only
            split
            · rename_i hok
              simpa [Op.forgets] using hok
            · rename_i hok
              simpa [Op.forgets] using hok
      · repeat' split
        all_goals simp [Op.forgets, ha]
  | resume d sync =>
      simp only [drops, opOf]
      cases haction : d.action with
      | ackPending => simp [Op.forgets]
      | abandon => simp [Op.forgets]
      | resumeFrom => cases d.leaseId <;> simp [Op.forgets]
      | resendResult =>
          repeat' split
          all_goals first | contradiction | simp [Op.forgets]
  | callback r cb =>
      cases cb <;> simp only [drops, opOf, opOfCallback] <;> repeat' split
      all_goals rfl
  | _ =>
      simp only [drops, opOf]
      repeat' split
      all_goals rfl

theorem opOf_assign (msg : JobAssign) (reply : EngineReply) :
    opOf env w (.assign msg reply) =
      if accepts env w msg reply then .accept msg.attemptId msg.leaseId !reply.runThrows
      else .idle := by
  rw [opOf, accepts]
  cases hex : existing w msg.attemptId <;> cases href : refusal env w msg reply <;> simp

theorem opOf_eq_accept {act : Action} {a lease : JsString} {started : Bool}
    (h : opOf env w act = .accept a lease started) :
    ∃ msg reply, act = .assign msg reply ∧ msg.attemptId = a ∧ msg.leaseId = lease ∧
      started = !reply.runThrows ∧ existing w msg.attemptId = none ∧
      refusal env w msg reply = none := by
  cases act with
  | assign msg reply =>
      rw [opOf] at h
      split at h
      · cases h
      · rename_i hnone
        simp only [Bool.or_eq_true, not_or, Bool.not_eq_true, Option.isSome_eq_false_iff,
          Option.isNone_iff_eq_none] at hnone
        injection h with ha hlease hstarted
        exact ⟨msg, reply, rfl, ha, hlease, hstarted.symm, hnone⟩
  | callback r cb =>
      cases cb <;> simp only [opOf, opOfCallback] at h <;> repeat' split at h
      all_goals cases h
  | _ =>
      simp only [opOf] at h
      repeat' split at h
      all_goals cases h

theorem opOf_eq_ack {act : Action} {a : JsString} {n : Nat} {u : Option Ref}
    (h : opOf env w act = .ack a n u) :
    ∃ msg, act = .streamAck msg ∧ msg.attemptId = a ∧
      leaseOk w (w.registry.get msg.attemptId) msg.attemptId msg.leaseId = true ∧
      resumedBy env w msg = u := by
  cases act with
  | streamAck msg =>
      rw [opOf] at h
      split at h
      · rename_i hok
        injection h with ha hn hu
        exact ⟨msg, rfl, ha, hok, hu⟩
      · cases h
  | callback r cb =>
      cases cb <;> simp only [opOf, opOfCallback] at h <;> repeat' split at h
      all_goals cases h
  | _ =>
      simp only [opOf] at h
      repeat' split at h
      all_goals cases h

theorem opOf_eq_ackPending {act : Action} {a : JsString} (h : opOf env w act = .ackPending a) :
    ∃ d sync, act = .resume d sync ∧ d.attemptId = a ∧ d.action = .ackPending := by
  cases act with
  | resume d sync =>
      rw [opOf] at h
      repeat' split at h
      all_goals cases h
      rename_i haction
      exact ⟨d, sync, rfl, rfl, haction⟩
  | callback r cb =>
      cases cb <;> simp only [opOf, opOfCallback] at h <;> repeat' split at h
      all_goals cases h
  | _ =>
      simp only [opOf] at h
      repeat' split at h
      all_goals cases h

/-- A rotation on its own is a `lease.granted`, a `resume_from`, or a `resend_result` that
resends nothing. -/
theorem opOf_eq_rotate {act : Action} {a lease : JsString} {hit : Option Ref}
    (h : opOf env w act = .rotate a lease hit) :
    (∃ msg r, act = .leaseGranted msg ∧ msg.attemptId = a ∧ w.registry.get a = some r) ∨
      ∃ d sync, act = .resume d sync ∧ d.attemptId = a ∧ d.leaseId = some lease ∧
        (d.action = .resumeFrom ∨ d.action = .resendResult ∧
          (w.store.resultRow a).bind (resentRow env w lease) = none) := by
  cases act with
  | leaseGranted msg =>
      rw [opOf] at h
      split at h
      · rename_i r hlive
        injection h with ha
        exact Or.inl ⟨msg, r, rfl, ha, ha ▸ hlive⟩
      · cases h
  | resume d sync =>
      rw [opOf] at h
      split at h
      · cases h
      · cases h
      · rename_i lease' haction hlease
        injection h with ha hl
        exact Or.inr ⟨d, sync, rfl, ha, hl ▸ hlease, Or.inl haction⟩
      · rename_i lease' haction hlease
        split at h
        · cases h
        · rename_i hnone
          injection h with ha hl
          exact Or.inr ⟨d, sync, rfl, ha, hl ▸ hlease, Or.inr ⟨haction, ha ▸ hl ▸ hnone⟩⟩
      · cases h
  | callback r cb =>
      cases cb <;> simp only [opOf, opOfCallback] at h <;> repeat' split at h
      all_goals cases h
  | _ =>
      simp only [opOf] at h
      repeat' split at h
      all_goals cases h

/-- A result is sent again by a `resend_result`. -/
theorem opOf_eq_resend {act : Action} {a lease : JsString} {hit : Option Ref} {res : StoredResult}
    (h : opOf env w act = .resend a lease hit res) :
    ∃ d sync, act = .resume d sync ∧ d.attemptId = a ∧ d.action = .resendResult ∧
      (w.store.resultRow a).bind (resentRow env w lease) = some res := by
  cases act with
  | resume d sync =>
      rw [opOf] at h
      split at h
      · cases h
      · cases h
      · cases h
      · rename_i lease' haction hlease
        split at h
        · rename_i res' hrow
          injection h with ha hl hhit hres
          exact ⟨d, sync, rfl, ha, haction, ha ▸ hl ▸ hres ▸ hrow⟩
        · cases h
      · cases h
  | callback r cb =>
      cases cb <;> simp only [opOf, opOfCallback] at h <;> repeat' split at h
      all_goals cases h
  | _ =>
      simp only [opOf] at h
      repeat' split at h
      all_goals cases h

/-- A result is saved by its run's `onDone`. -/
theorem opOf_eq_finishSaved {act : Action} {r : Ref} {res : StoredResult}
    (h : opOf env w act = .finishSaved r res) :
    ∃ outcome digest, act = .callback r (.done outcome) ∧
      ((r ∈ w.runs ∧ r ∉ w.ended) ∧ (w.jobs r).fenced = false) ∧
      resultDigest env.sha256Base64Url (resultMsgOf env w r outcome) = .ok digest ∧
      res = storedResultOf (w.jobs r) outcome digest (resultMsgOf env w r outcome) := by
  cases act with
  | callback q cb =>
      cases cb with
      | done outcome =>
          simp only [opOf, opOfCallback] at h
          split at h
          · rename_i hact
            split at h
            · cases h
            · rename_i hf
              split at h
              · cases h
              · rename_i digest hdigest
                injection h with hr hres
                subst hr
                exact ⟨outcome, digest, rfl, ⟨hact, Bool.eq_false_iff.mpr hf⟩, hdigest, hres.symm⟩
          · cases h
      | _ =>
          simp only [opOf, opOfCallback] at h
          repeat' split at h
          all_goals cases h
  | _ =>
      simp only [opOf] at h
      repeat' split at h
      all_goals cases h

theorem rotatedBy_ne {a leaseId : JsString} {r : Ref} (h : rotatedBy w a leaseId = some r) :
    (w.jobs r).leaseId ≠ leaseId := by
  unfold rotatedBy at h
  split at h
  · split at h
    · rename_i hne
      exact Option.some.inj h ▸ hne
    · cases h
  · cases h

/-- What rotates a job, and to which lease. -/
theorem opOf_rotated {act : Action} {r : Ref} {lease : JsString}
    (h : (opOf env w act).rotated = some (r, lease)) :
    (∃ msg, act = .leaseGranted msg ∧ w.registry.get msg.attemptId = some r ∧
        msg.leaseId = lease) ∨
      ∃ d sync, act = .resume d sync ∧ d.leaseId = some lease ∧
        rotatedBy w d.attemptId lease = some r := by
  have hhit : ∀ a leaseId, (rotatedBy w a leaseId).map (fun q => (q, leaseId)) = some (r, lease) →
      leaseId = lease ∧ rotatedBy w a lease = some r := by
    intro a leaseId hc
    obtain ⟨q, hq, hqr⟩ := Option.map_eq_some_iff.mp hc
    injection hqr with hqr hl
    exact ⟨hl, hl ▸ hqr ▸ hq⟩
  cases act with
  | leaseGranted msg =>
      rw [opOf] at h
      split at h
      · rename_i q hlive
        simp only [Op.rotated, Option.map_some, Option.some.injEq, Prod.mk.injEq] at h
        obtain ⟨rfl, hl⟩ := h
        exact Or.inl ⟨msg, rfl, hlive, hl⟩
      · cases h
  | resume d sync =>
      rw [opOf] at h
      split at h
      · cases h
      · cases h
      · rename_i leaseId haction hlease
        obtain ⟨rfl, hhits⟩ := hhit _ _ h
        exact Or.inr ⟨d, sync, rfl, hlease, hhits⟩
      · rename_i leaseId haction hlease
        split at h
        · obtain ⟨rfl, hhits⟩ := hhit _ _ h
          exact Or.inr ⟨d, sync, rfl, hlease, hhits⟩
        · obtain ⟨rfl, hhits⟩ := hhit _ _ h
          exact Or.inr ⟨d, sync, rfl, hlease, hhits⟩
      · cases h
  | callback q cb =>
      cases cb <;> simp only [opOf, opOfCallback] at h <;> repeat' split at h
      all_goals cases h
  | _ =>
      simp only [opOf] at h
      repeat' split at h
      all_goals cases h

theorem opOf_eq_event {act : Action} {r : Ref} {row : EventRow} {pause : Bool}
    (h : opOf env w act = .event r row pause) :
    ∃ ev events, act = .callback r (.event ev) ∧ row = eventRowOf env w r ev ∧
      w.store.events.insert? row = some events ∧
      pause = overCap env { w.store with events } (w.jobs r).attemptId := by
  cases act with
  | callback q cb =>
      cases cb with
      | event ev =>
          simp only [opOf, opOfCallback] at h
          split at h
          · split at h
            · cases h
            · rename_i events hins
              injection h with hr hrow hpause
              subst hr
              exact ⟨ev, events, rfl, hrow.symm, hrow ▸ hins, hpause.symm⟩
          · cases h
      | approval req => cases h
      | done outcome =>
          simp only [opOf, opOfCallback] at h
          repeat' split at h
          all_goals cases h
  | _ =>
      simp only [opOf] at h
      repeat' split at h
      all_goals cases h

theorem opOf_eq_burn {act : Action} {r : Ref} (h : opOf env w act = .burn r) :
    ∃ ev, act = .callback r (.event ev) := by
  cases act with
  | callback q cb =>
      cases cb with
      | event ev =>
          simp only [opOf, opOfCallback] at h
          repeat' split at h
          all_goals cases h
          exact ⟨ev, rfl⟩
      | approval req => cases h
      | done outcome =>
          simp only [opOf, opOfCallback] at h
          repeat' split at h
          all_goals cases h
  | _ =>
      simp only [opOf] at h
      repeat' split at h
      all_goals cases h

/-- But for a stream ack, what releases an event drops its attempt. -/
theorem releases_eq_drops {act : Action} (hact : ∀ msg, act ≠ .streamAck msg)
    (k : JsString × Nat) : (opOf env w act).releases k = drops w k.1 act := by
  rw [drops_eq env]
  cases act with
  | streamAck msg => exact absurd rfl (hact msg)
  | callback r cb =>
      cases cb <;> simp only [opOf, opOfCallback] <;> repeat' split
      all_goals rfl
  | _ =>
      simp only [opOf]
      repeat' split
      all_goals rfl

/-! ### Assignment -/

theorem existing_eq_none {a : JsString} (h : existing w a = none) :
    w.registry.get a = none ∧ w.store.attemptRow a = none := by
  unfold existing at h
  split at h
  · exact absurd h (by simp)
  · rename_i hreg
    exact ⟨hreg, by simpa [EventLog.getAttempt] using h⟩

theorem ledger_acceptAssign {msg : JobAssign} {runThrows : Bool}
    (hrow : w.store.attemptRow msg.attemptId = none) :
    (acceptAssign env w msg runThrows).ledger =
      w.ledger.accept msg.attemptId msg.leaseId !runThrows := by
  have hrows := EventLog.rows_createAttempt w.store
    { attemptId := msg.attemptId
      jobId := msg.jobId
      leaseId := msg.leaseId
      agentRunId := env.agentRunId w.draws
      status := .accepted } hrow
  have hlive : (w.registry.add msg.attemptId w.nextRef).get =
      Function.update w.registry.get msg.attemptId (some w.nextRef) := by
    funext b
    rw [JobRegistry.get_add, Function.update_apply]
  cases runThrows with
  | true =>
      refine Ledger.ext ?_ rfl rfl hlive ?_ rfl rfl rfl ?_ rfl
      · exact (EventLog.rows_setAttemptStatus _ _ _).trans hrows
      · funext q
        by_cases hq : q = w.nextRef
        · simp [World.ledger, acceptAssign, World.send, World.emit, World.modifyJob, Ledger.accept,
            JobState.job, hq]
        · simp [World.ledger, acceptAssign, World.send, World.emit, World.modifyJob, Ledger.accept,
            Function.update_of_ne hq]
      · ext q
        simp [World.ledger, acceptAssign, World.send, World.emit, World.modifyJob, Ledger.accept]
  | false =>
      refine Ledger.ext ?_ rfl rfl hlive ?_ rfl ?_ rfl ?_ rfl
      · exact (EventLog.rows_setAttemptStatus _ _ _).trans hrows
      · funext q
        by_cases hq : q = w.nextRef
        · simp [World.ledger, acceptAssign, World.send, World.emit, World.modifyJob, Ledger.accept,
            JobState.job, hq]
        · simp [World.ledger, acceptAssign, World.send, World.emit, World.modifyJob, Ledger.accept,
            Function.update_of_ne hq]
      · ext q
        simp [World.ledger, acceptAssign, World.send, World.emit, World.modifyJob, Ledger.accept]
      · ext q
        simp [World.ledger, acceptAssign, World.send, World.emit, World.modifyJob, Ledger.accept]

/-! ### Leases -/

theorem ledger_rotate (a leaseId : JsString) (r : Ref) :
    { rotate w r leaseId with store := w.store.setAttemptLease a leaseId }.ledger =
      w.ledger.rotate a leaseId (some r) := by
  have h := World.ledger_modifyJob { w with store := w.store.setAttemptLease a leaseId } r
    (f := fun s => { s with
      prevLease := some s.leaseId
      leaseId
      leaseOverlapUntil := some (w.now + leaseRotationOverlapMs) })
    (g := fun j => { j with prev := some (j.lease, w.now + leaseRotationOverlapMs), lease := leaseId })
    rfl
  rw [World.ledger_setAttemptLease] at h
  exact h

theorem ledger_adoptLease (a leaseId : JsString) :
    (adoptLease w a leaseId).ledger = w.ledger.rotate a leaseId (rotatedBy w a leaseId) := by
  unfold adoptLease rotatedBy
  cases hreg : w.registry.get a with
  | none =>
      simp only [hreg]
      exact World.ledger_setAttemptLease w a leaseId
  | some r =>
      by_cases hl : (w.jobs r).leaseId ≠ leaseId
      · simp only [hreg, if_pos hl]
        exact ledger_rotate a leaseId r
      · simp only [hreg, if_neg hl]
        exact World.ledger_setAttemptLease w a leaseId

theorem hits_rotatedBy (a leaseId : JsString) :
    w.ledger.Hits a leaseId (rotatedBy w a leaseId) := by
  unfold rotatedBy
  cases hreg : w.registry.get a with
  | none =>
      refine ⟨fun r hr => absurd hr (by simp), ?_⟩
      intro _ r hr
      exact absurd (hreg.symm.trans hr) (by simp)
  | some q =>
      by_cases hl : (w.jobs q).leaseId ≠ leaseId
      · simp only [if_pos hl]
        refine ⟨?_, fun hc => absurd hc (by simp)⟩
        intro r hr
        exact Option.some.inj hr ▸ hreg
      · simp only [if_neg hl]
        refine ⟨fun r hr => absurd hr (by simp), ?_⟩
        intro _ r hr
        obtain rfl : q = r := Option.some.inj (hreg.symm.trans hr)
        exact not_not.mp hl

theorem hits_some {a leaseId : JsString} {r : Ref} (h : w.registry.get a = some r) :
    w.ledger.Hits a leaseId (some r) :=
  ⟨fun _ hr => Option.some.inj hr ▸ h, fun hc => absurd hc (by simp)⟩

/-! ### Fencing -/

theorem ledger_cutOff (r : Ref) :
    (cutOff w r).ledger = w.ledger.fence r false := by
  have h := World.ledger_modifyJob w r (f := fun s => { s with fenced := true })
    (g := fun j => { j with fenced := true }) rfl
  rw [cutOff, World.ledger_callRun_cancel, World.ledger_clearApprovals, h]
  simp [Ledger.fence, Ledger.modify, World.ledger, JobState.job]

/-- The run is done and its job knows. -/
theorem ledger_finish (r : Ref) :
    ({ w with ended := r :: w.ended }.modifyJob r fun s => { s with run := none }).ledger =
      w.ledger.finish r := by
  refine Ledger.ext rfl rfl rfl rfl ?_ rfl rfl ?_ rfl rfl
  · exact World.jobs_modifyJob { w with ended := r :: w.ended } r _
  · ext q
    simp [World.ledger, World.modifyJob, Ledger.finish]

theorem attempt_finish (r : Ref) : ((w.ledger.finish r).jobs r).attempt = (w.jobs r).attemptId := by
  simp [Ledger.finish, Ledger.modify, World.ledger, JobState.job]

theorem live_finish (r : Ref) : (w.ledger.finish r).live = w.registry.get := rfl

theorem ledger_retire (r : Ref) : (retire w r).ledger = (w.ledger.finish r).leave r := by
  by_cases hc : w.registry.get (w.jobs r).attemptId = some r
  · rw [Ledger.leave, attempt_finish, live_finish, if_pos hc, ← ledger_finish,
      ← World.ledger_unregister]
    simp only [retire, hc, if_true]
    exact World.ledger_clearApprovals _ r
  · rw [Ledger.leave, attempt_finish, live_finish, if_neg hc, ← ledger_finish]
    simp only [retire, hc, if_false]
    exact World.ledger_clearApprovals _ r

theorem ledger_fence (env : Env) {a : JsString} {r : Ref} (hlive : w.registry.get a = some r)
    (hid : (w.jobs r).attemptId = a) (sync : List Callback) :
    (fence env w r a sync).ledger = (w.ledger.fence r (endsIn w r sync)).unregister a := by
  rw [fence_eq]
  by_cases he : endsIn w r sync = true
  · simp only [he, if_true]
    have h := World.ledger_unregister
      { retire (cutOff w r) r with startedAt := (retire (cutOff w r) r).startedAt.erase a } a
    refine h.trans ?_
    have hr : { retire (cutOff w r) r with
        startedAt := (retire (cutOff w r) r).startedAt.erase a }.ledger =
          (retire (cutOff w r) r).ledger := rfl
    rw [hr, ledger_retire, ledger_cutOff]
    have hlive' : w.ledger.live a = some r := hlive
    have hid' : (w.ledger.jobs r).attempt = a := hid
    simp [Ledger.leave, Ledger.finish, Ledger.fence, Ledger.modify, Ledger.unregister, hlive', hid']
  · simp only [he]
    have h := World.ledger_unregister
      { cutOff w r with startedAt := (cutOff w r).startedAt.erase a } a
    refine h.trans ?_
    have hr : { cutOff w r with startedAt := (cutOff w r).startedAt.erase a }.ledger =
        (cutOff w r).ledger := rfl
    rw [hr, ledger_cutOff]

/-! ### Events -/

/-- The insert of an event's row fails: only the number is used up. -/
theorem onEvent_burn {r : Ref} {ev : EngineEvent} (hf : (w.jobs r).fenced = false)
    (h : w.store.events.insert? (eventRowOf env w r ev) = none) :
    onEvent env w r ev = { w with draws := w.draws + 1 }.modifyJob r fun s =>
      { s with
        seq := (w.jobs r).seq + 1
        totalBytes := s.totalBytes + (eventRowOf env w r ev).bytes } := by
  have happ : w.store.appendEvent (w.jobs r).attemptId ((w.jobs r).seq + 1)
      (eventRowOf env w r ev).eventId (eventRowOf env w r ev).bytes
      (eventRowOf env w r ev).payload = none := by
    rw [EventLog.appendEvent]
    exact Option.map_eq_none_iff.mpr h
  unfold eventRowOf eventMsgOf at happ ⊢
  simp only [onEvent, hf, happ, Bool.false_eq_true, if_false]

/-- An event is persisted and sent; the cap check comes after. -/
def eventStored (env : Env) (w : World) (r : Ref) (ev : EngineEvent)
    (events : Table EventRow.key) : World :=
  { { w with draws := w.draws + 1 }.modifyJob r fun s =>
      { s with
        seq := (w.jobs r).seq + 1
        totalBytes := s.totalBytes + (eventRowOf env w r ev).bytes } with
    store := { w.store with events }.advanceSeq (w.jobs r).attemptId ((w.jobs r).seq + 1) }.emit
      (eventMsgOf env w r ev)

theorem onEvent_stored {r : Ref} {ev : EngineEvent} {events : Table EventRow.key}
    (hf : (w.jobs r).fenced = false)
    (h : w.store.events.insert? (eventRowOf env w r ev) = some events) :
    onEvent env w r ev =
      if overCap env { w.store with events } (w.jobs r).attemptId = true then
        ((eventStored env w r ev events).modifyJob r fun s => { s with paused := true }).callRun r
          .pause
      else eventStored env w r ev events := by
  have happ : w.store.appendEvent (w.jobs r).attemptId ((w.jobs r).seq + 1)
      (eventRowOf env w r ev).eventId (eventRowOf env w r ev).bytes
      (eventRowOf env w r ev).payload = some
        ({ w.store with events }.advanceSeq (w.jobs r).attemptId ((w.jobs r).seq + 1)) := by
    rw [EventLog.appendEvent]
    exact Option.map_eq_some_iff.mpr ⟨events, h, rfl⟩
  unfold eventRowOf eventMsgOf at happ
  simp only [onEvent, hf, happ, Bool.false_eq_true, if_false]
  rfl

theorem ledger_onEvent {r : Ref} {ev : EngineEvent} {events : Table EventRow.key}
    (hf : (w.jobs r).fenced = false)
    (h : w.store.events.insert? (eventRowOf env w r ev) = some events) :
    (onEvent env w r ev).ledger = w.ledger.event r (eventRowOf env w r ev) events
      (overCap env { w.store with events } (w.jobs r).attemptId) := by
  have hrows := EventLog.rows_advanceSeq { w.store with events } (w.jobs r).attemptId
    ((w.jobs r).seq + 1)
  rw [onEvent_stored hf h]
  by_cases hover : overCap env { w.store with events } (w.jobs r).attemptId = true
  · rw [if_pos hover, World.ledger_callRun _ _ rfl, hover]
    refine Ledger.ext hrows rfl rfl rfl ?_ rfl rfl rfl rfl rfl
    funext q
    by_cases hq : q = r
    · simp [World.ledger, World.modifyJob, World.emit, eventStored, Ledger.event, eventRowOf,
        JobState.job, hq]
    · simp [World.ledger, World.modifyJob, World.emit, eventStored, Ledger.event,
        Function.update_of_ne hq]
  · rw [if_neg hover, Bool.eq_false_iff.mpr hover]
    refine Ledger.ext hrows rfl rfl rfl ?_ rfl rfl rfl rfl rfl
    funext q
    by_cases hq : q = r
    · simp [World.ledger, World.modifyJob, World.emit, eventStored, Ledger.event, eventRowOf,
        JobState.job, hq]
    · simp [World.ledger, World.modifyJob, World.emit, eventStored, Ledger.event,
        Function.update_of_ne hq]

theorem step_event {r : Ref} {ev : EngineEvent} (hrun : r ∈ w.runs)
    (hf : (w.jobs r).fenced = false) :
    Step env.sha256Base64Url w.ledger (opOfCallback env w r (.event ev))
      (onEvent env w r ev).ledger := by
  simp only [opOfCallback, hrun, hf, and_self, if_true]
  cases h : w.store.events.insert? (eventRowOf env w r ev) with
  | none =>
      have hburn := World.ledger_modifyJob { w with draws := w.draws + 1 } r
        (f := fun s => { s with
          seq := (w.jobs r).seq + 1
          totalBytes := s.totalBytes + (eventRowOf env w r ev).bytes })
        (g := fun j => { j with seq := j.seq + 1 }) rfl
      rw [onEvent_burn hf h, hburn]
      exact .burn hrun hf (Table.insert?_eq_none.mp h)
  | some events =>
      rw [ledger_onEvent hf h]
      exact .event hrun hf rfl rfl h

/-! ### Results -/

/-- `onDone` on a job that is not fenced, up to the digest. -/
def doneUnfenced (w : World) (r : Ref) : World :=
  let a := (w.jobs r).attemptId
  let current := w.registry.get a = some r
  let w := { w with
    ended := r :: w.ended
    startedAt := if current then w.startedAt.erase a else w.startedAt }
  { (w.modifyJob r fun s => { s with run := none }).clearApprovals r with draws := w.draws + 1 }

theorem ledger_doneUnfenced (r : Ref) : (doneUnfenced w r).ledger = w.ledger.finish r := by
  rw [← ledger_finish]
  exact World.ledger_clearApprovals _ r

/-- The digest of the result throws: nothing is saved or sent, and the entry stays. -/
theorem onDone_lost {r : Ref} {outcome : EngineOutcome} {e : JcsError}
    (hf : (w.jobs r).fenced = false)
    (h : resultDigest env.sha256Base64Url (resultMsgOf env w r outcome) = .error e) :
    onDone env { w with ended := r :: w.ended } r outcome = doneUnfenced w r := by
  unfold resultMsgOf at h
  simp only [onDone, hf, h, Bool.false_eq_true, if_false]
  rfl

/-- The result is saved and sent. -/
def doneSaved (w : World) (r : Ref) (outcome : EngineOutcome) (result : JsObject)
    (digest : JsString) : World :=
  let a := (w.jobs r).attemptId
  let status := terminalStatusOf (finalStatusOf outcome)
  let w' := { doneUnfenced w r with
    store := (w.store.saveResult (storedResultOf (w.jobs r) outcome digest result)).setAttemptStatus
      a status }
  { (w'.modifyJob r fun s => { s with status }).emit result with
    registry := if w.registry.get a = some r then w.registry.remove a else w.registry }

theorem onDone_saved {r : Ref} {outcome : EngineOutcome} {digest : JsString}
    (hf : (w.jobs r).fenced = false)
    (h : resultDigest env.sha256Base64Url (resultMsgOf env w r outcome) = .ok digest) :
    onDone env { w with ended := r :: w.ended } r outcome =
      doneSaved w r outcome (resultMsgOf env w r outcome) digest := by
  unfold resultMsgOf at h
  simp only [onDone, hf, h, Bool.false_eq_true, if_false]
  rfl

theorem ledger_saveResult (res : StoredResult) :
    { w with store := w.store.saveResult res }.ledger = w.ledger.setResult res.attemptId res := by
  rw [World.ledger, EventLog.resultRow_saveResult_eq]
  rfl

theorem ledger_doneSaved {r : Ref} {outcome : EngineOutcome} {result : JsObject}
    {digest : JsString} :
    (doneSaved w r outcome result digest).ledger =
      ((w.ledger.finish r).setResult (w.jobs r).attemptId
        (storedResultOf (w.jobs r) outcome digest result)).leave r := by
  set res := storedResultOf (w.jobs r) outcome digest result with hres
  set w' := { doneUnfenced w r with store := w.store.saveResult res } with hw'
  have hsaved : w'.ledger = (w.ledger.finish r).setResult (w.jobs r).attemptId res := by
    rw [hw', ← ledger_doneUnfenced]
    exact ledger_saveResult res
  have hid : (w'.ledger.jobs r).attempt = (w.jobs r).attemptId := by
    rw [hsaved]
    exact attempt_finish r
  have hstatus : ∀ status, ({ w' with
      store := w'.store.setAttemptStatus (w.jobs r).attemptId status }.modifyJob r
        fun s => { s with status }).ledger = w'.ledger := by
    intro status
    rw [World.ledger_modifyJob_same _ _ rfl, World.ledger_setAttemptStatus]
  rw [← hsaved, Ledger.leave, hid]
  by_cases hc : w.registry.get (w.jobs r).attemptId = some r
  · rw [if_pos (show w'.ledger.live _ = some r from hc), ← hstatus, ← World.ledger_unregister,
      doneSaved]
    simp only [hc, if_true]
    rfl
  · rw [if_neg (show ¬ w'.ledger.live _ = some r from hc), ← hstatus, doneSaved]
    simp only [hc, if_false]
    rfl

theorem step_callback (r : Ref) (cb : Callback) :
    Step env.sha256Base64Url w.ledger (opOfCallback env w r cb)
      (callback env w r cb).ledger := by
  cases cb with
  | approval req =>
      rw [opOfCallback, callback, onApprovalRequest]
      split
      · split
        · exact .idle
        · rw [World.ledger_modifyJob_same _ _ rfl]
          exact .idle
      · exact .idle
  | event ev =>
      by_cases hrun : r ∈ w.runs
      · rw [callback, if_pos hrun]
        by_cases hf : (w.jobs r).fenced = true
        · simp only [opOfCallback, onEvent, hf, if_true]
          simp only [Bool.true_eq_false, and_false, if_false]
          exact .idle
        · exact step_event hrun (Bool.eq_false_iff.mpr hf)
      · rw [callback, if_neg hrun, opOfCallback, if_neg (fun hc => hrun hc.1)]
        exact .idle
  | done outcome =>
      by_cases hact : r ∈ w.runs ∧ r ∉ w.ended
      · rw [callback, if_pos hact, opOfCallback, if_pos hact]
        by_cases hf : (w.jobs r).fenced = true
        · rw [if_pos hf, onDone_fenced hf, ledger_retire]
          exact .finishFenced hact hf
        · have hf' := Bool.eq_false_iff.mpr hf
          rw [if_neg hf]
          cases h : resultDigest env.sha256Base64Url (resultMsgOf env w r outcome) with
          | error e =>
              rw [onDone_lost hf' h, ledger_doneUnfenced]
              exact .finishLost hact hf'
          | ok digest =>
              rw [onDone_saved hf' h, ledger_doneSaved]
              exact .finishSaved hact hf' rfl rfl (storedResultOf_acknowledgeable h)
      · rw [callback, if_neg hact, opOfCallback, if_neg hact]
        exact .idle

/-! ### Directives -/

theorem adoptLease_eq (a leaseId : JsString) :
    adoptLease w a leaseId =
      { w with
        store := w.store.setAttemptLease a leaseId
        jobs := match rotatedBy w a leaseId with
          | some r => (rotate w r leaseId).jobs
          | none => w.jobs } := by
  unfold adoptLease rotatedBy
  cases hreg : w.registry.get a with
  | none => simp only [hreg]
  | some r =>
      by_cases hl : (w.jobs r).leaseId ≠ leaseId
      · simp only [hreg, if_pos hl]
        rfl
      · simp only [hreg, if_neg hl]

theorem ledger_resendEvents (leaseId : Option JsString) (payloads : List JsString) :
    (resendEvents env leaseId w payloads).1.ledger = w.ledger := by
  induction payloads generalizing w with
  | nil => rfl
  | cons p rest ih =>
      rw [resendEvents]
      split
      · rfl
      · rw [ih, World.ledger_send]

theorem ledger_updateResult {a : JsString} {old : StoredResult} (leaseId digest payload : JsString)
    (h : w.store.resultRow a = some old) :
    { w with store := w.store.updateResult a leaseId digest payload }.ledger =
      w.ledger.setResult a
        { old with leaseId, resultDigest := digest, payload, resultSize := byteLength payload } := by
  rw [World.ledger, EventLog.resultRow_updateResult_eq _ _ _ h]
  rfl

theorem step_resendResult {d : ResumeDirective} {leaseId : JsString}
    (hlease : d.leaseId = some leaseId) (haction : d.action = .resendResult) (sync : List Callback) :
    Step env.sha256Base64Url w.ledger (opOf env w (.resume d sync))
      (applyDirective env w d sync).1.ledger := by
  have hadopt := ledger_adoptLease (w := w) d.attemptId leaseId
  have hresult : (adoptLease w d.attemptId leaseId).store.resultRow d.attemptId =
      w.store.resultRow d.attemptId := by
    rw [adoptLease_eq]
    rfl
  have hdraws : (adoptLease w d.attemptId leaseId).draws = w.draws := by rw [adoptLease_eq]
  simp only [applyDirective, haction, adoptDirectiveLease, hlease, opOf, EventLog.getResult, hresult]
  cases hold : w.store.resultRow d.attemptId with
  | none =>
      rw [Option.bind_none, Option.map_none, hadopt]
      exact .rotate (hits_rotatedBy _ _)
  | some old =>
      simp only [Option.bind_some, Option.map_some, resendResult, StoredResult.read_payload, resentRow,
        hlease, Option.getD_some, hdraws]
      cases hparse : parseObject old.payload with
      | none =>
          rw [hadopt]
          exact .rotate (hits_rotatedBy _ _)
      | some o =>
          simp only
          cases hdigest : resultDigest env.sha256Base64Url
              (restamp (some leaseId) o (env.envelope w.draws)) with
          | error e =>
              simp only
              refine (congrArg (Step _ _ _) ?_).mpr (.rotate (hits_rotatedBy d.attemptId leaseId))
              exact hadopt
          | ok digest =>
              simp only [World.ledger_emit]
              have hold' := hresult.trans hold
              have hid : old.attemptId = d.attemptId :=
                w.store.resultRow_attemptId d.attemptId hold
              have hupdate := ledger_updateResult
                (w := { adoptLease w d.attemptId leaseId with draws := w.draws + 1 }) leaseId digest
                (stringifyObject (restamp (some leaseId) o (env.envelope w.draws))) hold'
              refine (congrArg (Step _ _ _) ?_).mpr (.resend (hits_rotatedBy d.attemptId leaseId)
                hold hid rfl
                fun hgood => restamped_acknowledgeable hgood hparse hdigest)
              rw [← hadopt]
              exact hupdate

theorem step_resume (hs : w.ledger.Sound) (d : ResumeDirective) (sync : List Callback) :
    Step env.sha256Base64Url w.ledger (opOf env w (.resume d sync))
      (applyDirective env w d sync).1.ledger := by
  cases haction : d.action with
  | resumeFrom =>
      cases hlease : d.leaseId with
      | none => exact absurd hlease (d.leaseRequired (Or.inl haction))
      | some leaseId =>
          simp only [applyDirective, haction, adoptDirectiveLease, hlease, opOf,
            ledger_resendEvents, ledger_adoptLease]
          exact .rotate (hits_rotatedBy _ _)
  | resendResult =>
      cases hlease : d.leaseId with
      | none => exact absurd hlease (d.leaseRequired (Or.inr haction))
      | some leaseId => exact step_resendResult hlease haction sync
  | ackPending =>
      simp only [applyDirective, haction, opOf]
      refine (congrArg (Step _ _ _) ?_).mpr .ackPending
      rw [← World.ledger_unregister, ← World.ledger_deleteResult, ← World.ledger_deleteAttempt]
  | abandon =>
      simp only [applyDirective, haction, opOf]
      cases hlive : w.registry.get d.attemptId with
      | none =>
          refine (congrArg (Step _ _ _) ?_).mpr (.abandonRow (a := d.attemptId) hlive)
          rw [← World.ledger_deleteResult, ← World.ledger_deleteAttempt]
      | some r =>
          refine (congrArg (Step _ _ _) ?_).mpr (.abandonLive (a := d.attemptId) hlive ?_)
          · simp only
            rw [← ledger_fence env hlive (hs.attempt _ _ hlive) sync,
              ← World.ledger_deleteResult, ← World.ledger_deleteAttempt]
          · intro he
            simp only [endsIn, Bool.and_eq_true, decide_eq_true_eq] at he
            exact he.1.2

/-! ### The refinement -/

theorem endsIn_active {r : Ref} {sync : List Callback} (h : endsIn w r sync = true) :
    w.ledger.Active r := by
  simp only [endsIn, Bool.and_eq_true, decide_eq_true_eq] at h
  exact h.1.2

/-- **The manager makes the steps of the ledger and no others.** -/
theorem step_refines (env : Env) (hs : w.ledger.Sound) (act : Action) :
    Step env.sha256Base64Url w.ledger (opOf env w act) (step env w act).ledger := by
  cases act with
  | assign msg reply =>
      rw [opOf, step, handleAssign]
      cases hex : existing w msg.attemptId with
      | some found =>
          obtain ⟨leaseId, agentRunId⟩ := found
          rw [if_pos (by simp)]
          simp only
          split <;> exact .idle
      | none =>
          obtain ⟨hlive, hrow⟩ := existing_eq_none hex
          cases href : refusal env w msg reply with
          | some rej =>
              rw [if_pos (by simp)]
              exact .idle
          | none =>
              rw [if_neg (by simp)]
              simp only
              rw [ledger_acceptAssign hrow]
              exact .accept (by simp [World.ledger, EventLog.rows, hrow]) hlive
  | streamAck msg =>
      rw [opOf, step, handleStreamAck]
      simp only
      by_cases hok : leaseOk w (w.registry.get msg.attemptId) msg.attemptId msg.leaseId = true
      · rw [if_pos hok, if_pos hok]
        cases hlive : w.registry.get msg.attemptId with
        | none =>
            simp only [resumedBy, hlive]
            exact .ack fun r hr => absurd hr (by simp)
        | some r =>
            simp only [resumedBy, hlive]
            split
            · rw [World.ledger_callRun _ _ rfl,
                World.ledger_modifyJob _ _ (g := fun j => { j with paused := false }) rfl]
              exact .ack fun q hq => Option.some.inj hq ▸ hlive
            · exact .ack fun q hq => absurd hq (by simp)
      · rw [if_neg hok, if_neg hok]
        exact .idle
  | resultAck msg =>
      rw [opOf, step, handleResultAck]
      by_cases hok : leaseOk w (w.registry.get msg.attemptId) msg.attemptId msg.leaseId = true
      · cases hack : w.store.ackResult msg.attemptId msg.resultDigest with
        | none =>
            rw [if_pos hok, if_neg (by simp)]
            exact .idle
        | some store =>
            obtain ⟨rfl, res, hres, -⟩ := EventLog.ackResult_eq_some hack
            rw [if_pos hok, if_pos (by simp [hok])]
            refine (congrArg (Step _ _ _) ?_).mpr (.settle hres)
            rw [← World.ledger_unregister, ← World.ledger_deleteResult,
              ← World.ledger_deleteAttempt]
            rfl
      · rw [if_neg hok, if_neg (by simp [hok])]
        exact .idle
  | cancel msg =>
      rw [opOf, step, handleCancel]
      cases hlive : w.registry.get msg.attemptId with
      | none => exact .idle
      | some r =>
          simp only
          by_cases hok : leaseOk w (some r) msg.attemptId msg.leaseId = true
          · rw [if_pos hok, if_pos hok, World.ledger_callRun_cancel, World.ledger_send,
              World.ledger_setAttemptStatus, World.ledger_modifyJob_same _ _ rfl]
            exact .cancel hlive
          · rw [if_neg hok, if_neg hok]
            exact .idle
  | approvalResponse msg =>
      rw [opOf, step, handleApprovalResponse]
      split
      · exact .idle
      · split
        · split
          · exact .idle
          · rw [World.ledger_callRun _ _ rfl, World.ledger_modifyJob_same _ _ rfl]
            exact .idle
        · exact .idle
  | leaseGranted msg =>
      rw [opOf, step, handleLeaseGranted]
      cases hlive : w.registry.get msg.attemptId with
      | none => exact .idle
      | some r =>
          refine (congrArg (Step _ _ _) ?_).mpr (.rotate (hits_some hlive))
          exact ledger_rotate msg.attemptId msg.leaseId r
  | revoke msg sync =>
      rw [opOf, step, handleRevoke]
      cases hlive : w.registry.get msg.attemptId with
      | none => exact .idle
      | some r =>
          simp only
          by_cases hok : leaseOk w (some r) msg.attemptId msg.leaseId = true
          · rw [if_pos hok, if_pos hok, World.ledger_deleteAttempt,
              ledger_fence env hlive (hs.attempt _ _ hlive)]
            exact .revoke hlive endsIn_active
          · rw [if_neg hok, if_neg hok]
            exact .idle
  | resume d sync => exact step_resume hs d sync
  | callback r cb => exact step_callback r cb
  | timer id =>
      rw [opOf, step, onTimer]
      split
      · exact .idle
      · rw [World.ledger_callRun _ _ rfl, World.ledger_modifyJob_same _ _ rfl]
        exact .idle
  | tick ms => exact .tick
  | restart =>
      refine (congrArg (Step _ _ _) ?_).mpr .restart
      refine Ledger.ext rfl rfl rfl rfl rfl rfl ?_ rfl rfl rfl
      ext q
      simp [step, World.restart, World.ledger]

/-! ### Every reachable ledger is sound -/

theorem sound_start : World.start.ledger.Sound where
  attempt := fun a r hl => absurd hl (by simp [World.ledger, World.start])
  live_lt := fun a r hl => absurd hl (by simp [World.ledger, World.start])
  unfenced := fun a r hl => absurd hl (by simp [World.ledger, World.start])
  row := fun a r hl => absurd hl (by simp [World.ledger, World.start])
  runs_lt := fun r hr => absurd hr (by simp [World.ledger, World.start])
  ended_lt := fun r hr => absurd hr (by simp [World.ledger, World.start])
  run_self := fun r q hq => absurd hq (by simp [World.ledger, World.start, JobState.job,
    JobState.blank])
  running := fun r hr => absurd hr.1 (by simp [World.ledger, World.start])
  cancelled := fun r hr => absurd hr.1 (by simp [World.ledger, World.start])

theorem sound_step (hs : w.ledger.Sound) (act : Action) : (step env w act).ledger.Sound :=
  hs.step (step_refines env hs act)

/-- **In every run, registry, attempts and runs fit together.** -/
theorem ledger_sound (env : Env) (acts : List Action) : (runFrom env acts).ledger.Sound :=
  Machine.run_invariant_all (step env) (I := fun w : World => w.ledger.Sound)
    (fun _ act hs => sound_step hs act) sound_start acts

end HuginAgent
