/-
Pending results stay acknowledgeable.

`onDone` stores a result under the lease of its job, and until it is acknowledged
four copies of that lease have to agree: the attempt's, the result's, the one in the
payload and the one under the digest.  `resend_result` sets all four.  `resume_from`
sets the attempt's alone, which is right for a live attempt, where there is no
result, and wrong for a finished one.  And `resend_result` sets the attempt's first
and throws when the new lease has no canonical form, a lone surrogate in it.
-/
import HuginAgent.Jobs.Ownership
import HuginAgent.Ledger.Settled

namespace HuginAgent

open JobManager Ledger

variable {env : Env} {w : World}

/-- What it means that every pending result can be acknowledged. -/
structure ResultsAckable (env : Env) (w : World) : Prop where
  lease : ∀ res ∈ w.store.results.rows,
    ∃ row, w.store.attemptRow res.attemptId = some row ∧ row.leaseId = res.leaseId
  payload : ∀ res ∈ w.store.results.rows, Acknowledgeable env.sha256Base64Url res
  acked : ∀ res ∈ w.store.results.rows,
    let w' := step env w (.resultAck ⟨res.attemptId, res.leaseId, res.resultDigest⟩)
    w'.store.resultRow res.attemptId = none ∧ w'.store.attemptRow res.attemptId = none

/-- No directive changes the lease of a finished attempt behind its result's back. -/
def ResultLeaseSafe (w : World) (act : Action) : Prop :=
  AckPendingSafe w act ∧
    match act with
    | .resume d _ => ∀ res ∈ w.store.resultRow d.attemptId, ∀ lease ∈ d.leaseId,
        (d.action = .resumeFrom → lease = res.leaseId) ∧
        (d.action = .resendResult → hasLoneSurrogate lease = false)
    | _ => True

instance : ∀ (w : World) (act : Action), Decidable (ResultLeaseSafe w act)
  | w, .resume d sync => inferInstanceAs (Decidable (AckPendingSafe w (.resume d sync) ∧
      ∀ res ∈ w.store.resultRow d.attemptId, ∀ lease ∈ d.leaseId,
        (d.action = .resumeFrom → lease = res.leaseId) ∧
        (d.action = .resendResult → hasLoneSurrogate lease = false)))
  | _, .assign .. | _, .streamAck _ | _, .resultAck _ | _, .cancel _ | _, .approvalResponse _
  | _, .leaseGranted _ | _, .revoke .. | _, .callback .. | _, .timer _ | _, .tick _ | _, .restart =>
      .isTrue ⟨trivial, trivial⟩

theorem resentRow_isSome {old : StoredResult} {leaseId : JsString}
    (h : Acknowledgeable env.sha256Base64Url old) (hlease : hasLoneSurrogate leaseId = false) :
    (resentRow env w leaseId old).isSome = true := by
  obtain ⟨o, hparse, -, -, -, -, hdigest⟩ := h.parses
  obtain ⟨digest, hdigest'⟩ := restamp_digest (e := env.envelope w.draws) ⟨_, hdigest⟩ hlease
  simp [resentRow, hparse, hdigest']

theorem faithful_of_safe (ho : w.ledger.Owned) (hi : Settled env.sha256Base64Url w.ledger)
    {act : Action} (h : ResultLeaseSafe w act) : Faithful w.ledger (opOf env w act) := by
  cases hop : opOf env w act with
  | rotate a lease hit =>
      intro res hres
      rcases opOf_eq_rotate hop with ⟨msg, r, rfl, -, hlive⟩ | ⟨d, sync, rfl, rfl, hlease, haction⟩
      · exact absurd ((ho.noResult a r hlive).symm.trans hres) (by simp)
      · obtain ⟨hfrom, hresend⟩ := h.2 res hres lease hlease
        rcases haction with haction | ⟨haction, hnone⟩
        · exact (hfrom haction).symm
        · have hgood := (hi _ res hres).2
          have hsome := resentRow_isSome (w := w) hgood (hresend haction)
          rw [show w.store.resultRow d.attemptId = some res from hres, Option.bind_some] at hnone
          rw [hnone] at hsome
          exact absurd hsome (by simp)
  | _ => trivial

/-- The three invariants together. -/
structure Pending (env : Env) (w : World) : Prop where
  sound : w.ledger.Sound
  owned : w.ledger.Owned
  settled : Settled env.sha256Base64Url w.ledger

theorem pending_start : Pending env World.start :=
  ⟨sound_start, owned_start, fun a res hres => absurd hres (by
    simp [World.ledger, World.start, EventLog.resultRow, EventLog.empty])⟩

theorem pending_step (h : Pending env w) {act : Action} (hsafe : ResultLeaseSafe w act) :
    Pending env (step env w act) := by
  have hstep := step_refines env h.sound act
  exact ⟨sound_step h.sound act, h.owned.step hstep h.sound (careful_of_safe hsafe.1),
    h.settled.step hstep h.sound h.owned (faithful_of_safe h.owned h.settled hsafe)⟩

/-! ### The acknowledgement -/

theorem resultAck_removes {res : StoredResult} (hres : w.store.resultRow res.attemptId = some res)
    (hlive : w.registry.get res.attemptId = none)
    (hlease : (w.store.attemptRow res.attemptId).map AttemptRow.leaseId = some res.leaseId)
    (hwhole : hasLoneSurrogate res.leaseId = false) :
    let w' := step env w (.resultAck ⟨res.attemptId, res.leaseId, res.resultDigest⟩)
    w'.store.resultRow res.attemptId = none ∧ w'.store.attemptRow res.attemptId = none := by
  have hack : w.store.ackResult res.attemptId res.resultDigest =
      some (w.store.deleteResult res.attemptId) := by
    simp [EventLog.ackResult, EventLog.getResult, hres]
  have hok : leaseOk w none res.attemptId res.leaseId = true := by
    obtain ⟨row, hrow, hrowLease⟩ := Option.map_eq_some_iff.mp hlease
    -- the lease of the row is read before it is compared
    have hread : row.read.leaseId = res.leaseId :=
      (congrArg columnText hrowLease).trans (columnText_eq_iff.mpr hwhole)
    simp [leaseOk, EventLog.getAttempt, hrow, hread]
  simp only [step, handleResultAck, hlive, hok, if_true, hack]
  simp

theorem resultsAckable_of_pending (h : Pending env w) : ResultsAckable env w := by
  have hfind : ∀ res ∈ w.store.results.rows, w.store.resultRow res.attemptId = some res :=
    fun res hres => Table.find?_eq_some.mpr ⟨hres, rfl⟩
  have hlease : ∀ res ∈ w.store.results.rows,
      (w.store.attemptRow res.attemptId).map AttemptRow.leaseId = some res.leaseId := by
    intro res hres
    have := (h.settled _ res (hfind res hres)).1
    rw [show w.ledger.rows res.attemptId = (w.store.attemptRow res.attemptId).map AttemptRow.row
      from rfl, Option.map_map] at this
    exact this
  refine ⟨?_, fun res hres => (h.settled _ res (hfind res hres)).2, ?_⟩
  · intro res hres
    exact Option.map_eq_some_iff.mp (hlease res hres)
  · intro res hres
    have hgood := (h.settled _ res (hfind res hres)).2
    exact resultAck_removes (hfind res hres) (h.owned.live_none (hfind res hres)) (hlease res hres)
      hgood.whole.2

/-- **Every pending result can be acknowledged where no directive changes the lease of a finished
attempt behind its back.** -/
theorem results_ackable (env : Env) (acts : List Action)
    (h : Along env (fun w act => ResultLeaseSafe w act) acts) :
    ResultsAckable env (runFrom env acts) :=
  resultsAckable_of_pending (Machine.run_invariant (step env)
    (I := fun w => Pending env w) (fun _ _ hI hsafe => pending_step hI hsafe) pending_start h)

theorem results_ackable_resumed :
    let env := sampleEnv sampleDigest .limits
    let acts := [sampleAssign "a" "l", sampleResume "a" .resumeFrom none "l" (by decide),
      .callback 0 (.done (.success none)), sampleResume "a" .resumeFrom (some 0) "l" (by decide)]
    Along env (fun w act => ResultLeaseSafe w act) acts ∧ ResultsAckable env (runFrom env acts) :=
  ⟨by decide +kernel, results_ackable _ _ (by decide +kernel)⟩

/-- A finished attempt is resumed under a new lease, and its result is under the old one. -/
theorem unackable_after_resumeFrom : ¬ ∀ env acts, ResultsAckable env (runFrom env acts) := by
  intro hall
  have h := hall (sampleEnv sampleDigest .limits) [sampleAssign "a" "l",
    .callback 0 (.done (.success none)), sampleResume "a" .resumeFrom none "m" (by decide)]
  have hrows : (runFrom (sampleEnv sampleDigest .limits) [sampleAssign "a" "l",
      .callback 0 (.done (.success none)),
      sampleResume "a" .resumeFrom none "m" (by decide)]).store.results.rows ≠ [] := by
    decide +kernel
  have hother : ∀ res ∈ (runFrom (sampleEnv sampleDigest .limits) [sampleAssign "a" "l",
      .callback 0 (.done (.success none)),
      sampleResume "a" .resumeFrom none "m" (by decide)]).store.results.rows,
      ((runFrom (sampleEnv sampleDigest .limits) [sampleAssign "a" "l",
        .callback 0 (.done (.success none)),
        sampleResume "a" .resumeFrom none "m" (by decide)]).store.attemptRow res.attemptId).map
          AttemptRow.leaseId ≠ some res.leaseId := by
    decide +kernel
  obtain ⟨res, hres⟩ := List.exists_mem_of_ne_nil _ hrows
  exact hother res hres (Option.map_eq_some_iff.mpr (h.lease res hres))

end HuginAgent
