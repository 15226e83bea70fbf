/-
No orphan runs, and the capacity bound.

A run is live from `engine.run` on until it calls `onDone` or is told to cancel.
The registry is how a live run is reached: `job.cancel` and `lease.revoke` look the
attempt up there, and its size is the load that `maxConcurrent` limits.  All of that
rests on a live run being registered, which is `Ledger.Owned`.

It fails in one way.  `ack_pending` drops the attempt wholesale and takes it out of
the registry, and unlike `abandon` it does not look whether a run is live in it.
-/
import HuginAgent.Ledger.Owned
import HuginAgent.Ledger.Refine

namespace HuginAgent

open JobManager Ledger

variable {env : Env} {w : World} {r : Ref}

/-- Started in this process, not done, and not told to stop. -/
structure LiveRun (w : World) (r : Ref) : Prop where
  started : r ∈ w.runs
  notDone : r ∉ w.ended
  notCancelled : ∀ grace, (r, EngineCall.cancel grace) ∉ w.calls

/-- What it means that no run is out of control. -/
structure Controlled (env : Env) (w : World) : Prop where
  registered : ∀ r, LiveRun w r →
    w.registry.get (w.jobs r).attemptId = some r ∧ (w.jobs r).run = some r
  capacity : ∀ rs : List Ref, rs.Nodup → (∀ r ∈ rs, LiveRun w r) → rs.length ≤ env.maxConcurrent
  cancel : ∀ r, LiveRun w r → ∀ msg : JobCancel, msg.attemptId = (w.jobs r).attemptId →
    msg.leaseId = (w.jobs r).leaseId → (r, .cancel msg.graceMs) ∈ (step env w (.cancel msg)).calls
  revoke : ∀ r, LiveRun w r → ∀ (msg : LeaseRevoke) (sync : List Callback),
    msg.attemptId = (w.jobs r).attemptId → msg.leaseId = (w.jobs r).leaseId →
    (r, .cancel 0) ∈ (step env w (.revoke msg sync)).calls

/-- `ack_pending` comes for attempts without a running run only. -/
def AckPendingSafe (w : World) : Action → Prop
  | .resume d _ =>
      d.action = .ackPending → ∀ r ∈ w.registry.get d.attemptId, (w.jobs r).run = none
  | _ => True

instance : ∀ (w : World) (act : Action), Decidable (AckPendingSafe w act)
  | w, .resume d _ => inferInstanceAs (Decidable
      (d.action = .ackPending → ∀ r ∈ w.registry.get d.attemptId, (w.jobs r).run = none))
  | _, .assign .. | _, .streamAck _ | _, .resultAck _ | _, .cancel _ | _, .approvalResponse _
  | _, .leaseGranted _ | _, .revoke .. | _, .callback .. | _, .timer _ | _, .tick _ | _, .restart =>
      .isTrue trivial

/-! ### Runs that are owned -/

theorem careful_of_safe {act : Action} (h : AckPendingSafe w act) :
    Careful w.ledger (opOf env w act) := by
  cases hop : opOf env w act with
  | ackPending a =>
      obtain ⟨d, sync, rfl, rfl, haction⟩ := opOf_eq_ackPending hop
      intro r hr
      exact h haction r hr
  | _ => trivial

theorem owned_start : World.start.ledger.Owned where
  registered := fun r hr => absurd hr.1 (by simp [World.ledger, World.start])
  noResult := fun a r hl => absurd hl (by simp [World.ledger, World.start])
  resultRow := fun a ha => absurd ha (by simp [World.ledger, World.start, EventLog.resultRow,
    EventLog.empty])

/-- **Where `ack_pending` is safe, every run that is not cut off is registered.** -/
theorem ledger_owned {acts : List Action} (h : Along env AckPendingSafe acts) :
    (runFrom env acts).ledger.Owned := by
  have hrun := Machine.run_invariant (step env) (P := AckPendingSafe)
    (I := fun w : World => w.ledger.Sound ∧ w.ledger.Owned) ?_ ⟨sound_start, owned_start⟩ h
  · exact hrun.2
  · intro w act hI hsafe
    obtain ⟨hs, ho⟩ := hI
    exact ⟨sound_step hs act, ho.step (step_refines env hs act) hs (careful_of_safe hsafe)⟩

theorem registered_of_live (hs : w.ledger.Sound) (ho : w.ledger.Owned) (hr : LiveRun w r) :
    w.registry.get (w.jobs r).attemptId = some r ∧ (w.jobs r).run = some r := by
  have hact : w.ledger.Active r := ⟨hr.started, hr.notDone⟩
  refine ⟨ho.registered r hact ?_, hs.running r hact⟩
  -- a fenced job that is still active was told to stop
  by_contra hf
  obtain ⟨grace, hcall⟩ := hs.cancelled r hact (Bool.not_eq_false _ ▸ hf)
  exact hr.notCancelled grace hcall

/-! ### Capacity -/

/-- At most `n` attempts are registered. -/
def Bounded (n : Nat) (L : Ledger) : Prop :=
  ∀ keys : List JsString, keys.Nodup → (∀ a ∈ keys, (L.live a).isSome) → keys.length ≤ n

theorem bounded_step {n : Nat} (hs : w.ledger.Sound) {act : Action}
    (hroom : ∀ a lease started, opOf env w act = .accept a lease started → w.registry.size < n)
    (hb : Bounded n w.ledger) : Bounded n (step env w act).ledger := by
  intro keys hnodup hkeys
  have hstep : Step env.sha256Base64Url w.ledger (opOf env w act) (step env w act).ledger :=
    step_refines env hs act
  by_cases hacc : ∃ a lease started, opOf env w act = .accept a lease started
  · obtain ⟨a, lease, started, hop⟩ := hacc
    -- all but the new attempt were registered before
    have hold : (keys.erase a).length ≤ w.registry.size := by
      refine w.registry.length_le_size (hnodup.erase a) ?_
      intro b hmem
      obtain ⟨hne, hmem⟩ := hnodup.mem_erase_iff.mp hmem
      rcases hstep.live b with (heq | hnone) | ⟨l, st, hop', -⟩
      · have := hkeys b hmem
        rwa [heq] at this
      · exact absurd (hkeys b hmem) (by simp [hnone])
      · rw [hop] at hop'
        injection hop' with hab
        exact absurd hab.symm hne
    have := hroom a lease started hop
    rw [List.length_erase] at hold
    split at hold
    · omega
    · omega
  · refine hb keys hnodup ?_
    intro b hmem
    rcases hstep.live b with (heq | hnone) | ⟨l, st, hop, -⟩
    · have := hkeys b hmem
      rwa [heq] at this
    · exact absurd (hkeys b hmem) (by simp [hnone])
    · exact absurd ⟨b, l, st, hop⟩ hacc

/-- An assignment is accepted only where there is room. -/
theorem room_of_accept {act : Action} {a lease : JsString} {started : Bool}
    (h : opOf env w act = .accept a lease started) : w.registry.size < env.maxConcurrent := by
  obtain ⟨msg, reply, -, -, -, -, -, href⟩ := opOf_eq_accept h
  unfold refusal at href
  split at href
  · exact absurd href (by simp)
  · rename_i hroom
    simpa [JobRegistry.atCapacity] using hroom

/-- **The registry never holds more than `maxConcurrent` attempts.** -/
theorem ledger_bounded (env : Env) (acts : List Action) :
    Bounded env.maxConcurrent (runFrom env acts).ledger := by
  have hrun := Machine.run_invariant_all (step env)
    (I := fun w : World => w.ledger.Sound ∧ Bounded env.maxConcurrent w.ledger) ?_
    ⟨sound_start, ?_⟩ acts
  · exact hrun.2
  · intro w act hI
    exact ⟨sound_step hI.1 act, bounded_step hI.1 (fun _ _ _ => room_of_accept) hI.2⟩
  · intro keys _ hkeys
    cases keys with
    | nil => exact Nat.zero_le _
    | cons a rest => exact absurd (hkeys a (List.mem_cons_self)) (by simp [World.ledger, World.start])

/-- A live run has an attempt of its own in the registry. -/
theorem live_le_capacity {n : Nat} (hs : w.ledger.Sound) (ho : w.ledger.Owned)
    (hb : Bounded n w.ledger) {rs : List Ref} (hnodup : rs.Nodup) (hlive : ∀ r ∈ rs, LiveRun w r) :
    rs.length ≤ n := by
  have hget : ∀ r ∈ rs, w.registry.get (w.jobs r).attemptId = some r :=
    fun r hr => (registered_of_live hs ho (hlive r hr)).1
  have hkeys : (rs.map fun r => (w.jobs r).attemptId).Nodup := by
    refine hnodup.map_on ?_
    intro q hq r hr hqr
    have hq := hget q hq
    rw [hqr, hget r hr] at hq
    exact (Option.some.inj hq).symm
  have := hb _ hkeys (by
    intro a ha
    obtain ⟨r, hr, rfl⟩ := List.mem_map.mp ha
    exact Option.isSome_iff_exists.mpr ⟨r, hget r hr⟩)
  rwa [List.length_map] at this

/-! ### Control -/

theorem cancel_reaches (hget : w.registry.get (w.jobs r).attemptId = some r)
    (hrun : (w.jobs r).run = some r) {msg : JobCancel} (hid : msg.attemptId = (w.jobs r).attemptId)
    (hlease : msg.leaseId = (w.jobs r).leaseId) :
    (r, .cancel msg.graceMs) ∈ (step env w (.cancel msg)).calls := by
  have hok : leaseOk w (some r) msg.attemptId msg.leaseId = true := by
    simp [leaseOk, JobState.accepts, hlease]
  rw [step, handleCancel, hid, hget]
  simp only
  rw [← hid, if_pos hok]
  simp [World.callRun, World.send, World.emit, World.modifyJob, hrun]

theorem revoke_reaches (hget : w.registry.get (w.jobs r).attemptId = some r)
    (hrun : (w.jobs r).run = some r) {msg : LeaseRevoke}
    (hid : msg.attemptId = (w.jobs r).attemptId) (hlease : msg.leaseId = (w.jobs r).leaseId)
    (sync : List Callback) : (r, .cancel 0) ∈ (step env w (.revoke msg sync)).calls := by
  have hok : leaseOk w (some r) msg.attemptId msg.leaseId = true := by
    simp [leaseOk, JobState.accepts, hlease]
  have hcut : (r, .cancel 0) ∈ (cutOff w r).calls := by
    simp [cutOff, World.callRun, World.clearApprovals, hrun, World.modifyJob]
  rw [step, handleRevoke, hid, hget]
  simp only
  rw [← hid, if_pos hok, fence_eq]
  by_cases he : endsIn w r sync = true
  · simp only [he, if_true]
    exact hcut
  · simp only [he]
    exact hcut

/-- **No run is out of control where `ack_pending` comes for finished attempts.** -/
theorem controlled_of_safe (env : Env) (acts : List Action) (h : Along env AckPendingSafe acts) :
    Controlled env (runFrom env acts) := by
  have hs := ledger_sound env acts
  have ho := ledger_owned h
  refine ⟨fun r hr => registered_of_live hs ho hr, ?_, ?_, ?_⟩
  · intro rs hnodup hlive
    exact live_le_capacity hs ho (ledger_bounded env acts) hnodup hlive
  · intro r hr msg hid hlease
    obtain ⟨hget, hrun⟩ := registered_of_live hs ho hr
    exact cancel_reaches hget hrun hid hlease
  · intro r hr msg sync hid hlease
    obtain ⟨hget, hrun⟩ := registered_of_live hs ho hr
    exact revoke_reaches hget hrun hid hlease sync

theorem controlled_of_safe_finished :
    let env := sampleEnv sampleDigest .limits
    let acts := [sampleAssign "a" "l", .callback 0 (.done (.success none)),
      sampleDrop "a" .ackPending (by decide), sampleAssign "b" "l"]
    Along env AckPendingSafe acts ∧ Controlled env (runFrom env acts) :=
  ⟨by decide +kernel, controlled_of_safe _ _ (by decide +kernel)⟩

/-- `ack_pending` for an attempt that runs: nothing reaches the run any more. -/
theorem orphaned_by_ackPending :
    ¬ ∀ env acts, Controlled env (runFrom env acts) := by
  intro hall
  have h := hall (sampleEnv sampleDigest .limits)
    [sampleAssign "a" "l", sampleDrop "a" .ackPending (by decide)]
  have hcalls : ∀ call ∈ (runFrom (sampleEnv sampleDigest .limits)
      [sampleAssign "a" "l", sampleDrop "a" .ackPending (by decide)]).calls,
      call.2.isCancel = false := by decide +kernel
  have hlive : LiveRun (runFrom (sampleEnv sampleDigest .limits)
      [sampleAssign "a" "l", sampleDrop "a" .ackPending (by decide)]) 0 := by
    refine ⟨by decide +kernel, by decide +kernel, ?_⟩
    intro grace hc
    exact absurd (hcalls _ hc) (by simp [EngineCall.isCancel])
  exact absurd (h.registered 0 hlive).1 (by decide +kernel)

end HuginAgent
