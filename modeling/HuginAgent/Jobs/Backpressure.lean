/-
Backpressure, and when it starves a run.

A run is paused when its events or bytes, or the bytes of all attempts together, reach
a cap, and `handleStreamAck` lets it go on when an ack brings it below.  It looks at
the acknowledged attempt and at no other, and the paths that drop an attempt look at
none.  So a run that is paused only because of what others have outstanding stays
paused when the others are acknowledged, and with its own events acknowledged too
there is no ack to come that would look at it again.
-/
import HuginAgent.Jobs.Calls

namespace HuginAgent

open JobManager Ledger

variable {env : Env} {w : World} {a b : JsString} {r : Ref}

def EngineCall.isFlow : EngineCall → Bool
  | pause | resume => true
  | _ => false

/-- The calls of a list that pause this run or let it go on. -/
def flowOf (calls : List (Ref × EngineCall)) (r : Ref) : List (Ref × EngineCall) :=
  calls.filter fun call => call.1 = r && call.2.isFlow

/-- The run was told to pause and not to go on since. -/
def stopped (w : World) (r : Ref) : Bool := (flowOf w.calls r).getLast? = some (r, .pause)

/-- No run waits without a cap that holds it. -/
structure Unstarved (env : Env) (w : World) : Prop where
  held : ∀ a r, w.registry.get a = some r → (w.jobs r).paused = true → overCap env w.store a = true
  flowing : ∀ a r, w.registry.get a = some r → (w.jobs r).run.isSome = true →
    (w.jobs r).paused = stopped w r

/-- Every other paused attempt is over a cap of its own, or the connection is over its cap without
the freed bytes. -/
def OthersHeld (env : Env) (w : World) (a : JsString) (freed : Nat) : Prop :=
  ∀ b r, b ≠ a → w.registry.get b = some r → (w.jobs r).paused = true →
    env.caps.events ≤ w.store.unackedEvents b ∨ env.caps.bytes ≤ w.store.unackedBytes b ∨
      env.caps.conn ≤ w.store.connUnackedBytes - freed

/-- The bytes that an ack frees. -/
def ackedBytes (w : World) (msg : StreamAck) : Nat :=
  (((w.store.eventRowsOf msg.attemptId).filter fun e => e.seq ≤ msg.ackSeq).map EventRow.bytes).sum

/-- What the action frees is not what another run was waiting for. -/
def FreesSafely (env : Env) (w : World) : Action → Prop
  | .streamAck msg =>
      leaseOk w (w.registry.get msg.attemptId) msg.attemptId msg.leaseId = true →
      OthersHeld env w msg.attemptId (ackedBytes w msg)
  | act => ∀ a, drops w a act = true → OthersHeld env w a (w.store.unackedBytes a)

/-! ### The caps -/

theorem sum_filter_add (l : List EventRow) (p : EventRow → Bool) :
    ((l.filter p).map EventRow.bytes).sum + ((l.filter fun e => !p e).map EventRow.bytes).sum =
      (l.map EventRow.bytes).sum := by
  induction l with
  | nil => rfl
  | cons e rest ih =>
      cases hp : p e with
      | true => simp [hp]; omega
      | false => simp [hp]; omega

theorem overCap_iff (s : EventLog) :
    overCap env s a = true ↔ env.caps.events ≤ s.unackedEvents a ∨
      env.caps.bytes ≤ s.unackedBytes a ∨ env.caps.conn ≤ s.connUnackedBytes := by
  simp [overCap, or_assoc]

theorem overCap_congr {s s' : EventLog} (h : s.events = s'.events) (a : JsString) :
    overCap env s a = overCap env s' a := by
  obtain ⟨attempts, events, results⟩ := s
  subst h
  rfl

/-- More events keep an attempt over its caps. -/
theorem overCap_append {s s' : EventLog} (more : List EventRow)
    (hrows : s'.events.rows = s.events.rows ++ more) (h : overCap env s a = true) :
    overCap env s' a = true := by
  rw [overCap_iff] at h ⊢
  have hevents : s.unackedEvents a ≤ s'.unackedEvents a := by
    simp [EventLog.unackedEvents, EventLog.eventRowsOf, hrows]
  have hbytes : s.unackedBytes a ≤ s'.unackedBytes a := by
    simp [EventLog.unackedBytes, EventLog.eventRowsOf, hrows]
  have hconn : s.connUnackedBytes ≤ s'.connUnackedBytes := by
    simp [EventLog.connUnackedBytes, hrows]
  omega

/-- What one attempt gives up changes for another the bytes of the connection only. -/
theorem overCap_freed {s s' : EventLog} {p : EventRow → Bool}
    (hrows : s'.events.rows = s.events.rows.filter fun e => !p e)
    (hp : ∀ e, p e = true → e.attemptId = a) (hb : b ≠ a) :
    overCap env s' b = true ↔ env.caps.events ≤ s.unackedEvents b ∨
      env.caps.bytes ≤ s.unackedBytes b ∨
      env.caps.conn ≤ s.connUnackedBytes - ((s.events.rows.filter p).map EventRow.bytes).sum := by
  have hown : s'.eventRowsOf b = s.eventRowsOf b := by
    rw [EventLog.eventRowsOf, EventLog.eventRowsOf, hrows, List.filter_filter]
    refine List.filter_congr ?_
    intro e _
    by_cases he : e.attemptId = b
    · have hno : p e = false := by
        by_contra hc
        exact hb (he ▸ hp e (Bool.not_eq_false _ ▸ hc))
      simp [he, hno]
    · simp [he]
  have hsum := sum_filter_add s.events.rows p
  have hconn : s'.connUnackedBytes =
      s.connUnackedBytes - ((s.events.rows.filter p).map EventRow.bytes).sum := by
    rw [EventLog.connUnackedBytes, EventLog.connUnackedBytes, hrows]
    omega
  rw [overCap_iff, hconn, EventLog.unackedEvents, EventLog.unackedBytes, hown]
  rfl

/-! ### What an action does to the caps of the paused -/

/-- Every paused attempt is over a cap. -/
def Held (env : Env) (w : World) : Prop :=
  ∀ a r, w.registry.get a = some r → (w.jobs r).paused = true → overCap env w.store a = true

theorem registry_streamAck (msg : StreamAck) :
    (step env w (.streamAck msg)).registry = w.registry := by
  simp only [step, handleStreamAck]
  repeat' split
  all_goals rfl

theorem store_streamAck (env : Env) {msg : StreamAck}
    (hok : leaseOk w (w.registry.get msg.attemptId) msg.attemptId msg.leaseId = true) :
    (step env w (.streamAck msg)).store = w.store.ackEvents msg.attemptId msg.ackSeq := by
  simp only [step, handleStreamAck, hok, if_true]
  repeat' split
  all_goals rfl

theorem paused_streamAck {msg : StreamAck}
    (hok : leaseOk w (w.registry.get msg.attemptId) msg.attemptId msg.leaseId = true) :
    ((step env w (.streamAck msg)).jobs r).paused = true ↔
      resumedBy env w msg ≠ some r ∧ (w.jobs r).paused = true := by
  simp only [step, handleStreamAck, hok, if_true, resumedBy]
  cases w.registry.get msg.attemptId with
  | none => simp
  | some q =>
      simp only
      split
      · by_cases hq : r = q
        · simp [World.callRun, hq]
        · simp [World.callRun, World.jobs_modifyJob_of_ne _ _ hq, Ne.symm hq]
      · simp

theorem ackedBytes_eq (msg : StreamAck) :
    ackedBytes w msg = ((w.store.events.rows.filter fun e =>
      decide (e.seq ≤ msg.ackSeq) && decide (e.attemptId = msg.attemptId)).map EventRow.bytes).sum := by
  rw [ackedBytes, EventLog.eventRowsOf, List.filter_filter]

/-- What an ack does to the bytes of another attempt. -/
theorem overCap_acked {msg : StreamAck} (hb : b ≠ msg.attemptId) :
    overCap env (w.store.ackEvents msg.attemptId msg.ackSeq) b = true ↔
      env.caps.events ≤ w.store.unackedEvents b ∨ env.caps.bytes ≤ w.store.unackedBytes b ∨
        env.caps.conn ≤ w.store.connUnackedBytes - ackedBytes w msg := by
  rw [ackedBytes_eq]
  refine overCap_freed (a := msg.attemptId) ?_ ?_ hb
  · exact List.filter_congr fun e _ => by rw [Bool.and_comm]
  · intro e he
    simp only [Bool.and_eq_true, decide_eq_true_eq] at he
    exact he.2

theorem held_streamAck (hs : w.ledger.Sound) {msg : StreamAck}
    (hok : leaseOk w (w.registry.get msg.attemptId) msg.attemptId msg.leaseId = true) :
    Held env (step env w (.streamAck msg)) ↔ OthersHeld env w msg.attemptId (ackedBytes w msg) := by
  constructor
  · intro hheld b r hb hlive hpaused
    refine (overCap_acked hb).mp ?_
    rw [← store_streamAck env hok]
    refine hheld b r (by rw [registry_streamAck]; exact hlive) ((paused_streamAck hok).mpr ⟨?_, hpaused⟩)
    -- the job that goes on is the one of the acknowledged attempt
    intro hc
    unfold resumedBy at hc
    split at hc
    · rename_i q hq
      split at hc
      · obtain rfl := Option.some.inj hc
        exact hb ((hs.attempt b q hlive).symm.trans (hs.attempt _ q hq))
      · cases hc
    · cases hc
  · intro hothers b r hlive hpaused
    rw [registry_streamAck] at hlive
    obtain ⟨hres, hpaused⟩ := (paused_streamAck hok).mp hpaused
    rw [store_streamAck env hok]
    by_cases hb : b = msg.attemptId
    · subst hb
      have hid : (w.jobs r).attemptId = msg.attemptId := hs.attempt _ r hlive
      by_contra hc
      refine hres ?_
      rw [Bool.not_eq_true] at hc
      simp [resumedBy, hlive, hpaused, hid, hc]
    · exact (overCap_acked hb).mpr (hothers b r hb hlive hpaused)

/-! ### Attempts that are dropped -/

theorem releases_of_forgets {op : Op} (h : op.forgets a = true) (k : JsString × Nat) :
    op.releases k = decide (k.1 = a) ∧ op.flow = none ∧ op.stored = none := by
  unfold Op.forgets at h
  split at h
  · obtain rfl := decide_eq_true_iff.mp h
    exact ⟨decide_eq_decide.mpr eq_comm, rfl, rfl⟩
  · obtain rfl := decide_eq_true_iff.mp h
    exact ⟨decide_eq_decide.mpr eq_comm, rfl, rfl⟩
  · obtain rfl := decide_eq_true_iff.mp h
    exact ⟨decide_eq_decide.mpr eq_comm, rfl, rfl⟩
  · obtain rfl := decide_eq_true_iff.mp h
    exact ⟨decide_eq_decide.mpr eq_comm, rfl, rfl⟩
  · cases h

theorem held_drop (hs : w.ledger.Sound) {act : Action} (h : drops w a act = true) :
    Held env (step env w act) ↔ OthersHeld env w a (w.store.unackedBytes a) := by
  have hstep := step_refines env hs act
  rw [drops_eq env] at h
  have hrel := fun k => (releases_of_forgets h k).1
  obtain ⟨-, hflow, hstored⟩ := releases_of_forgets h (a, 0)
  have hlive : ∀ b, (step env w act).registry.get b = if b = a then none else w.registry.get b := by
    intro b
    have := congrFun (hstep.live_of_forgets h) b
    rwa [Function.update_apply] at this
  have hpaused : ∀ b r, w.registry.get b = some r →
      ((step env w act).jobs r).paused = (w.jobs r).paused := by
    intro b r hr
    have := hstep.paused (hs.live_lt b r hr)
    rwa [hflow] at this
  have hrows : (step env w act).store.events.rows =
      w.store.events.rows.filter fun e => !decide (e.attemptId = a) := by
    have := hstep.events_rows
    rw [hstored] at this
    simpa [hrel, EventRow.key, World.ledger] using this
  have hcap : ∀ b, b ≠ a → (overCap env (step env w act).store b = true ↔
      env.caps.events ≤ w.store.unackedEvents b ∨ env.caps.bytes ≤ w.store.unackedBytes b ∨
        env.caps.conn ≤ w.store.connUnackedBytes - w.store.unackedBytes a) :=
    fun b hb => overCap_freed hrows (fun e he => decide_eq_true_iff.mp he) hb
  constructor
  · intro hheld b r hb hget hp
    refine (hcap b hb).mp (hheld b r ?_ ((hpaused b r hget).trans hp))
    rw [hlive, if_neg hb]
    exact hget
  · intro hothers b r hget hp
    rw [hlive] at hget
    split at hget
    · cases hget
    · rename_i hb
      exact (hcap b hb).mpr (hothers b r hb hget ((hpaused b r hget).symm.trans hp))

/-! ### Actions that free nothing -/

/-- A job that is paused in a step that frees nothing was paused before, or is over a cap. -/
theorem overCap_of_paused (hs : w.ledger.Sound) {act : Action}
    (hrel : ∀ k, (opOf env w act).releases k = false) (hr : r < w.nextRef)
    (hp : ((step env w act).jobs r).paused = true) :
    (w.jobs r).paused = true ∨ overCap env (step env w act).store (w.jobs r).attemptId = true := by
  have hstep := step_refines env hs act
  have hpaused := hstep.paused hr
  cases hop : opOf env w act with
  | ack a n u =>
      have := hrel (a, 0)
      rw [hop] at this
      simp [Op.releases] at this
  | event q row pause =>
      cases pause with
      | false =>
          rw [hop] at hpaused
          exact Or.inl (hpaused.symm.trans hp)
      | true =>
          by_cases hq : q = r
          · subst hq
            obtain ⟨ev, events, -, -, hins, hover⟩ := opOf_eq_event hop
            have hevents : (step env w act).store.events = events := by
              rw [hop] at hstep
              exact Option.some.inj (hstep.inserted.symm.trans hins)
            refine Or.inr (Eq.trans ?_ hover.symm)
            exact overCap_congr hevents _
          · rw [hop] at hpaused
            simp only [Op.flow, if_neg hq] at hpaused
            exact Or.inl (hpaused.symm.trans hp)
  | _ =>
      rw [hop] at hpaused
      exact Or.inl (hpaused.symm.trans hp)

theorem held_kept (hs : w.ledger.Sound) (hheld : Held env w) {act : Action}
    (hrel : ∀ k, (opOf env w act).releases k = false) : Held env (step env w act) := by
  have hstep := step_refines env hs act
  intro a r hlive hp
  rcases hstep.live a with (heq | hnone) | ⟨lease, started, hop, hnew⟩
  · have hlive' : w.registry.get a = some r := heq.symm.trans hlive
    have hid : (w.jobs r).attemptId = a := hs.attempt a r hlive'
    rcases overCap_of_paused hs hrel (hs.live_lt a r hlive') hp with hbefore | hover
    · refine overCap_append (opOf env w act).stored.toList ?_ (hheld a r hlive' hbefore)
      have hrows := hstep.events_rows
      simpa [hrel, World.ledger] using hrows
    · exact hid ▸ hover
  · exact absurd (hnone.symm.trans hlive) (by simp)
  · obtain rfl : w.nextRef = r := Option.some.inj (hnew.symm.trans hlive)
    have hlt := (sound_step hs act).live_lt a w.nextRef hlive
    have hpaused := (hstep.fresh_job (le_refl _) hlt).2
    exact absurd (hpaused.symm.trans hp) (by simp)

/-- **A step leaves every paused attempt over a cap just where it frees safely.** -/
theorem held_step (hs : w.ledger.Sound) (hheld : Held env w) (act : Action) :
    Held env (step env w act) ↔ FreesSafely env w act := by
  have hother : (∀ msg, act ≠ .streamAck msg) →
      (Held env (step env w act) ↔
        ∀ a, drops w a act = true → OthersHeld env w a (w.store.unackedBytes a)) := by
    intro hact
    by_cases hd : ∃ a, drops w a act = true
    · obtain ⟨a, hd⟩ := hd
      rw [held_drop hs hd]
      refine ⟨fun h b hb => ?_, fun h => h a hd⟩
      rw [drops_eq env] at hd hb
      have hab := (releases_of_forgets hd (b, 0)).1
      rw [(releases_of_forgets hb (b, 0)).1] at hab
      obtain rfl : b = a := by simpa using hab
      exact h
    · refine ⟨fun _ a ha => absurd ⟨a, ha⟩ hd, fun _ => held_kept hs hheld ?_⟩
      intro k
      rw [releases_eq_drops hact]
      by_contra hc
      exact hd ⟨k.1, Bool.not_eq_false _ ▸ hc⟩
  cases act with
  | streamAck msg =>
      by_cases hok : leaseOk w (w.registry.get msg.attemptId) msg.attemptId msg.leaseId = true
      · rw [held_streamAck hs hok]
        exact ⟨fun h _ => h, fun h => h hok⟩
      · refine ⟨fun _ hc => absurd hc hok, fun _ => held_kept hs hheld ?_⟩
        intro k
        rw [opOf, if_neg hok]
        rfl
  | _ => exact hother (by simp)

/-! ### What the engine was told -/

theorem filter_onRun (w : World) (r : Ref) (call : EngineCall) :
    (onRun w r call).filter (fun c => c.2.isFlow) = if call.isFlow then onRun w r call else [] := by
  unfold onRun
  cases (w.jobs r).run with
  | none => simp
  | some q => cases h : call.isFlow <;> simp [h]

/-- Only an ack and an event stop a run or let it go on. -/
theorem flow_none (env : Env) (w : World) {act : Action} (hack : ∀ msg, act ≠ .streamAck msg)
    (hevent : ∀ r ev, act ≠ .callback r (.event ev)) :
    (opOf env w act).flow = none ∧ (callsOf env w act).filter (fun c => c.2.isFlow) = [] := by
  constructor
  · cases act with
    | streamAck msg => exact absurd rfl (hack msg)
    | callback r cb =>
        cases cb with
        | event ev => exact absurd rfl (hevent r ev)
        | approval req => rfl
        | done outcome =>
            simp only [opOf, opOfCallback]
            repeat' split
            all_goals rfl
    | _ =>
        simp only [opOf]
        repeat' split
        all_goals rfl
  · cases act with
    | streamAck msg => exact absurd rfl (hack msg)
    | callback r cb =>
        cases cb with
        | event ev => exact absurd rfl (hevent r ev)
        | _ => rfl
    | _ =>
        simp only [callsOf]
        repeat' split
        all_goals first | rfl | exact filter_onRun w _ _

/-- The calls of an action that pause a run or let it go on. -/
theorem flow_calls (env : Env) (w : World) (act : Action) :
    (callsOf env w act).filter (fun c => c.2.isFlow) =
      match (opOf env w act).flow with
      | some (r, true) => onRun w r .pause
      | some (r, false) => onRun w r .resume
      | none => [] := by
  by_cases hack : ∃ msg, act = .streamAck msg
  · obtain ⟨msg, rfl⟩ := hack
    simp only [callsOf, opOf]
    by_cases hok : leaseOk w (w.registry.get msg.attemptId) msg.attemptId msg.leaseId = true
    · simp only [hok, if_true]
      cases resumedBy env w msg with
      | none => rfl
      | some r => exact filter_onRun w r .resume
    · simp only [hok]
      rfl
  · by_cases hevent : ∃ r ev, act = .callback r (.event ev)
    · obtain ⟨r, ev, rfl⟩ := hevent
      simp only [callsOf, callsOfCallback, opOf, opOfCallback]
      by_cases hact : r ∈ w.runs ∧ (w.jobs r).fenced = false
      · simp only [if_pos hact]
        cases w.store.events.insert? (eventRowOf env w r ev) with
        | none => rfl
        | some events =>
            simp only
            cases overCap env { w.store with events } (w.jobs r).attemptId with
            | false => rfl
            | true => exact filter_onRun w r .pause
      · simp only [if_neg hact]
        rfl
    · have hnone := flow_none env w (fun msg hc => hack ⟨msg, hc⟩)
        fun r ev hc => hevent ⟨r, ev, hc⟩
      rw [hnone.1, hnone.2]

theorem flowOf_onRun (hs : w.ledger.Sound) {q : Ref} {call : EngineCall}
    (hcall : call.isFlow = true) :
    flowOf (onRun w q call) r = if q = r then onRun w r call else [] := by
  unfold onRun
  cases hrun : (w.jobs q).run with
  | none =>
      split
      · rename_i hq
        rw [← hq, hrun]
        rfl
      · rfl
  | some p =>
      obtain rfl : p = q := hs.run_self q p hrun
      by_cases hq : p = r
      · subst hq
        simp [flowOf, hrun, hcall]
      · simp [flowOf, hq]

/-- The calls of an action that pause this run or let it go on. -/
theorem flowOf_step (env : Env) (hs : w.ledger.Sound) (act : Action) (r : Ref) :
    flowOf (step env w act).calls r = flowOf w.calls r ++
      match (opOf env w act).flow with
      | some (q, stop) => if q = r then onRun w r (if stop then .pause else .resume) else []
      | none => [] := by
  have hflow : flowOf (callsOf env w act) r =
      flowOf ((callsOf env w act).filter fun c => c.2.isFlow) r := by
    rw [flowOf, flowOf, List.filter_filter]
    refine List.filter_congr ?_
    intro c _
    cases c.2.isFlow <;> simp
  rw [step_calls, flowOf, List.filter_append]
  refine congrArg _ (hflow.trans ?_)
  rw [flow_calls]
  cases (opOf env w act).flow with
  | none => rfl
  | some p =>
      obtain ⟨q, stop⟩ := p
      cases stop <;> exact flowOf_onRun hs rfl

/-- A job that has a run is paused when the run was last told so. -/
structure Flowing (w : World) : Prop where
  fresh : ∀ r, w.nextRef ≤ r → flowOf w.calls r = []
  agree : ∀ r < w.nextRef, (w.jobs r).run.isSome = true → (w.jobs r).paused = stopped w r

theorem flowing_step (hs : w.ledger.Sound) (h : Flowing w) (act : Action) :
    Flowing (step env w act) := by
  have hstep := step_refines env hs act
  have hnext : w.nextRef ≤ (step env w act).nextRef := hstep.next_le
  have hcalls := flowOf_step env hs act
  constructor
  · intro r hr
    rw [hcalls, h.fresh r (hnext.trans hr)]
    cases hop : (opOf env w act).flow with
    | none => rfl
    | some p =>
        obtain ⟨q, stop⟩ := p
        have hq : q < w.nextRef := hstep.flow_lt hs hop
        have hne : q ≠ r := Nat.ne_of_lt (hq.trans_le (hnext.trans hr))
        simp [hne]
  · intro r hr hrun
    by_cases hold : r < w.nextRef
    · have hrun' : ((step env w act).jobs r).run = (w.jobs r).run := by
        rcases hstep.run hold with heq | hnone
        · exact heq
        · exact absurd hrun (by rw [show ((step env w act).jobs r).run = none from hnone]; simp)
      have hpaused : ((step env w act).jobs r).paused = _ := hstep.paused hold
      have hsame := h.agree r hold (hrun' ▸ hrun)
      have hcalls := hcalls r
      rw [hpaused]
      show _ = decide ((flowOf (step env w act).calls r).getLast? = some (r, .pause))
      cases hop : (opOf env w act).flow with
      | none =>
          rw [hop] at hcalls
          rw [hcalls, List.append_nil]
          exact hsame
      | some p =>
          obtain ⟨q, stop⟩ := p
          rw [hop] at hcalls
          simp only at hcalls ⊢
          by_cases hq : q = r
          · obtain ⟨p, hp⟩ := Option.isSome_iff_exists.mp (hrun' ▸ hrun)
            obtain rfl : p = r := hs.run_self r p hp
            rw [if_pos hq] at hcalls ⊢
            rw [hcalls, onRun, hp]
            cases stop <;> simp
          · rw [if_neg hq] at hcalls ⊢
            rw [hcalls, List.append_nil]
            exact hsame
    · -- a job that has just been given out was told nothing
      have hge := Nat.not_lt.mp hold
      have hpaused := (hstep.fresh_job hge hr).2
      obtain ⟨-, a, lease, started, hop⟩ := hstep.fresh hge hr
      have hnone : flowOf (step env w act).calls r = [] := by
        rw [hcalls, h.fresh r hge, hop]
        rfl
      refine Eq.trans hpaused ?_
      show false = decide ((flowOf (step env w act).calls r).getLast? = some (r, .pause))
      rw [hnone]
      rfl

theorem flowing (env : Env) (acts : List Action) : Flowing (runFrom env acts) := by
  have hrun := Machine.run_invariant_all (step env)
    (I := fun w : World => w.ledger.Sound ∧ Flowing w) ?_ ⟨sound_start, ?_⟩ acts
  · exact hrun.2
  · intro w act hI
    exact ⟨sound_step hI.1 act, flowing_step hI.1 hI.2 act⟩
  · exact ⟨fun _ _ => rfl, fun r hr => absurd hr (Nat.not_lt_zero r)⟩

/-! ### The result -/

theorem unstarved_iff_held (acts : List Action) :
    Unstarved env (runFrom env acts) ↔ Held env (runFrom env acts) := by
  refine ⟨fun h => h.held, fun h => ⟨h, ?_⟩⟩
  intro a r hlive hrun
  exact (flowing env acts).agree r ((ledger_sound env acts).live_lt a r hlive) hrun

theorem held_start : Held env World.start := by
  intro a r hlive
  exact absurd hlive (by simp [World.start])

/-- **A run never starves just where what is freed was never what another run waited for.** -/
theorem unstarved_iff (env : Env) (acts : List Action) :
    (∀ pre post, acts = pre ++ post → Unstarved env (runFrom env pre)) ↔
      Along env (FreesSafely env) acts := by
  constructor
  · intro h
    refine Machine.along_iff.mpr ?_
    intro pre act post hsplit
    have hbefore := (unstarved_iff_held pre).mp (h pre (act :: post) hsplit)
    have hafter := (unstarved_iff_held (pre ++ [act])).mp
      (h (pre ++ [act]) post (by rw [hsplit, List.append_assoc]; rfl))
    rw [runFrom_snoc] at hafter
    exact (held_step (ledger_sound env pre) hbefore act).mp hafter
  · intro h pre post hsplit
    rw [unstarved_iff_held]
    have hpre : Along env (FreesSafely env) pre := by
      rw [hsplit] at h
      exact (Machine.along_append.mp h).1
    have hrun := Machine.run_invariant (step env)
      (I := fun w : World => w.ledger.Sound ∧ Held env w) ?_ ⟨sound_start, held_start⟩ hpre
    · exact hrun.2
    · intro w act hI hsafe
      exact ⟨sound_step hI.1 act, (held_step hI.1 hI.2 act).mpr hsafe⟩

/-- The second attempt is paused because of what the first has outstanding.  Both have all their
events acknowledged, the first one last, and the second stays paused. -/
theorem starved_by_connection : ¬ ∀ env acts, Unstarved env (runFrom env acts) := by
  intro hall
  have h := hall (sampleEnv sampleDigest ⟨100, 100000, 330⟩)
    [sampleAssign "a" "l", sampleAssign "b" "m", .callback 0 (.event sampleEvent),
      .callback 0 (.event sampleEvent), .callback 1 (.event sampleEvent),
      .streamAck ⟨js "b", js "m", 1⟩, .streamAck ⟨js "a", js "l", 2⟩]
  have hover := h.held (js "b") 1 (by decide +kernel) (by decide +kernel)
  exact absurd hover (by decide +kernel)

end HuginAgent
