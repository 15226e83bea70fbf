/-
What a restart leaves running.

Whether an attempt runs is known to the process alone: its registry and the runs it has
started are gone when it dies.  The rows stay, and nobody looks them through when the
next process opens the database.  So an attempt whose run died with its process is still
listed as running in every `hello`, and a duplicate of its assignment is still
re-confirmed, though nothing will ever come of it.  `Ledger.AllBacked` is what would
have to hold, and `backed_step` says which steps break it; a restart does whenever an
attempt is unfinished.
-/
import HuginAgent.Jobs.Completion
import HuginAgent.Jobs.Crash
import HuginAgent.Ledger.Backed

namespace HuginAgent

open JobManager Ledger

variable {env : Env} {w : World} {a : JsString} {r : Ref}

/-- A run of the attempt is live in this process, or its result is stored. -/
def Answered (w : World) (a : JsString) : Prop :=
  (∃ r, w.registry.get a = some r ∧ r ∈ w.runs ∧ r ∉ w.ended) ∨
    (w.store.resultRow a).isSome = true

/-- The assignment is a duplicate that is re-confirmed with `job.accept` (`answers_reconfirmed`). -/
def reconfirms (w : World) (msg : JobAssign) : Bool :=
  match existing w msg.attemptId with
  | some (leaseId, _) => leaseMatches leaseId msg.leaseId
  | none => false

/-- Nothing is reported as accepted or running that is neither. -/
structure NoZombies (w : World) : Prop where
  reconfirmed : ∀ msg, reconfirms w msg = true → Answered w msg.attemptId
  /-- `hello` lists the attempts of these rows. -/
  listed : ∀ row ∈ w.store.activeRows, Answered w row.attemptId

/-- Every attempt on record has a result. -/
def EventLog.AllReported (s : EventLog) : Prop :=
  ∀ a, (s.attemptRow a).isSome = true → (s.resultRow a).isSome = true

/-- The turn leaves no attempt without a run and a result. -/
def KeepsAnswered (env : Env) (w : World) : Turn → Prop
  | .cut act effects => (crash env w act effects).store.AllReported
  | .handled .restart => w.store.AllReported
  | .handled (.assign msg reply) => accepts env w msg reply = true → reply.runThrows = true →
      (w.store.resultRow msg.attemptId).isSome = true
  | .handled (.callback r (.done outcome)) =>
      (r ∈ w.runs ∧ r ∉ w.ended) ∧ (w.jobs r).fenced = false →
      w.registry.get (w.jobs r).attemptId = some r →
      Digestible (w.jobs r) outcome ∨ (w.store.resultRow (w.jobs r).attemptId).isSome = true
  | .handled _ => True

/-- What a duplicate is answered with. -/
theorem answers_reconfirmed {msg : JobAssign} (reply : EngineReply) (h : reconfirms w msg = true) :
    ∃ agentRunId, answersOf env w msg reply =
      [jobAccept ⟨msg.jobId, msg.attemptId, msg.leaseId⟩ agentRunId (env.envelope w.draws)] := by
  unfold reconfirms at h
  split at h
  · rename_i leaseId agentRunId hex
    have hlease : leaseId = msg.leaseId := of_decide_eq_true h
    refine ⟨agentRunId, ?_⟩
    simp only [answersOf, hex]
    rw [if_pos h, hlease]
  · cases h

/-! ### Zombies and backing -/

theorem noZombies_iff (hs : w.ledger.Sound) : NoZombies w ↔ w.ledger.AllBacked := by
  constructor
  · intro h a hrow
    obtain ⟨row, hrow⟩ := Option.isSome_iff_exists.mp (recorded_iff.mp hrow)
    -- an assignment under the lease on record is re-confirmed
    have hdup : ∀ lease runId, existing w a = some (lease, runId) → Answered w a := by
      intro lease runId hex
      refine h.reconfirmed
        { jobId := []
          attemptId := a
          leaseId := lease
          engine := .claude
          workspace := ⟨[], none, none⟩
          prompt := []
          sandbox := .readOnly
          approvalPolicy := .never } ?_
      simp [reconfirms, hex, leaseMatches]
    cases hlive : w.registry.get a with
    | some r => exact hdup _ _ (by rw [existing, hlive])
    | none => exact hdup _ _ (by rw [existing, hlive, EventLog.getAttempt, hrow]; rfl)
  · intro h
    constructor
    · intro msg hdup
      refine h msg.attemptId (recorded_iff.mpr ?_)
      unfold reconfirms existing at hdup
      cases hlive : w.registry.get msg.attemptId with
      | some r =>
          obtain ⟨row, hrow, -⟩ := hs.row _ r hlive
          exact recorded_iff.mp (by rw [hrow]; rfl)
      | none =>
          rw [hlive] at hdup
          cases hrow : w.store.attemptRow msg.attemptId with
          | some row => rfl
          | none =>
              rw [EventLog.getAttempt, hrow] at hdup
              cases hdup
    · intro row hrow
      refine h row.attemptId (recorded_iff.mpr ?_)
      rw [(EventLog.mem_activeRows.mp hrow).1]
      rfl

/-! ### Turns -/

/-- A process that has just been started. -/
theorem sound_started {L L' : Ledger} (hs : L.Sound) (hlive : L'.live = fun _ => none)
    (hruns : L'.runs = ∅) (hnext : L'.next = L.next) (hended : L'.ended = L.ended)
    (hjobs : L'.jobs = L.jobs) : L'.Sound where
  attempt := fun a r hl => absurd hl (by simp [hlive])
  live_lt := fun a r hl => absurd hl (by simp [hlive])
  unfenced := fun a r hl => absurd hl (by simp [hlive])
  row := fun a r hl => absurd hl (by simp [hlive])
  runs_lt := fun r hr => absurd hr (by simp [hruns])
  ended_lt := by
    intro r hr
    rw [hnext]
    exact hs.ended_lt r (hended ▸ hr)
  run_self := by
    intro r q hq
    exact hs.run_self r q (hjobs ▸ hq)
  running := fun r hr => absurd hr.1 (by simp [hruns])
  cancelled := fun r hr => absurd hr.1 (by simp [hruns])

theorem sound_turn (hs : w.ledger.Sound) (t : Turn) : (turn env w t).ledger.Sound := by
  cases t with
  | handled act => exact sound_step hs act
  | cut act effects =>
      have hstep : (step env w act).ledger.Sound := sound_step hs act
      refine sound_started hstep rfl ?_ rfl rfl rfl
      exact Set.eq_empty_of_forall_notMem fun r hr => absurd hr List.not_mem_nil

theorem allReported_iff {s : EventLog} : s.AllReported ↔
    ∀ a, (s.rows a).isSome = true → (s.resultRow a).isSome = true := by
  refine forall_congr' fun a => ?_
  rw [EventLog.rows, Option.isSome_map]

/-- Right after a start there are results only. -/
theorem backed_started (hlive : w.registry = .empty) :
    w.ledger.AllBacked ↔ w.store.AllReported := by
  rw [allReported_iff]
  constructor
  · intro h a hrow
    rcases h a hrow with ⟨q, hq, -⟩ | hres
    · have hq : w.registry.get a = some q := hq
      rw [hlive] at hq
      cases hq
    · exact hres
  · exact fun h a hrow => Or.inr (h a hrow)

/-- The steps that take away the last backing of an attempt. -/
theorem backs_iff (act : Action) :
    (opOf env w act).Backs w.ledger ↔ KeepsAnswered env w (.handled act) := by
  cases act with
  | assign msg reply =>
      rw [opOf_assign]
      show _ ↔ (accepts env w msg reply = true → reply.runThrows = true →
        (w.store.resultRow msg.attemptId).isSome = true)
      cases accepts env w msg reply with
      | false => exact iff_of_true trivial (fun h => absurd h Bool.false_ne_true)
      | true =>
          show ((!reply.runThrows) = true ∨ (w.store.resultRow msg.attemptId).isSome = true) ↔ _
          cases reply.runThrows <;> simp
  | callback r cb =>
      cases cb with
      | approval req => exact Iff.rfl
      | event ev =>
          refine iff_of_true ?_ trivial
          simp only [opOf, opOfCallback]
          repeat' split
          all_goals trivial
      | done outcome =>
          show (opOfCallback env w r (.done outcome)).Backs w.ledger ↔
            ((r ∈ w.runs ∧ r ∉ w.ended) ∧ (w.jobs r).fenced = false →
              w.registry.get (w.jobs r).attemptId = some r →
              Digestible (w.jobs r) outcome ∨
                (w.store.resultRow (w.jobs r).attemptId).isSome = true)
          by_cases hact : (r ∈ w.runs ∧ r ∉ w.ended) ∧ (w.jobs r).fenced = false
          · have hdig : (∃ d, resultDigest env.sha256Base64Url (resultMsgOf env w r outcome) = .ok d)
                ↔ Digestible (w.jobs r) outcome := digest_ok_iff ..
            rw [opOfCallback, if_pos hact.1, hact.2, if_neg Bool.false_ne_true, ← hdig]
            cases resultDigest env.sha256Base64Url (resultMsgOf env w r outcome) with
            | ok digest => exact iff_of_true trivial fun _ _ => Or.inl ⟨digest, rfl⟩
            | error e =>
                show (w.registry.get (w.jobs r).attemptId = some r →
                  (w.store.resultRow (w.jobs r).attemptId).isSome = true) ↔ _
                simp [hact]
          · refine iff_of_true ?_ fun h => absurd h hact
            rw [opOfCallback]
            split
            · rename_i hlive
              cases hf : (w.jobs r).fenced with
              | true => trivial
              | false => exact absurd ⟨hlive, hf⟩ hact
            · trivial
  | restart => exact allReported_iff.symm
  | _ =>
      refine iff_of_true ?_ trivial
      simp only [opOf]
      repeat' split
      all_goals trivial

theorem noZombies_turn (hs : w.ledger.Sound) (h : NoZombies w) (t : Turn) :
    NoZombies (turn env w t) ↔ KeepsAnswered env w t := by
  rw [noZombies_iff (sound_turn hs t)]
  cases t with
  | handled act =>
      have hb := (noZombies_iff hs).mp h
      exact (backed_step hs (step_refines env hs act) hb).trans (backs_iff act)
  | cut act effects => exact backed_started rfl

theorem noZombies_start : NoZombies World.start where
  reconfirmed := fun msg h => absurd h (by simp [reconfirms, existing, World.start,
    EventLog.getAttempt, EventLog.attemptRow, EventLog.empty])
  listed := fun job h => absurd h List.not_mem_nil

/-- **No run meets a zombie just where no restart, no start that fails and no result that is
refused leaves an attempt unanswered.** -/
theorem no_zombies_iff (env : Env) (turns : List Turn) :
    (∀ pre post, turns = pre ++ post → NoZombies (runTurns env pre)) ↔
      Machine.Along (turn env) (KeepsAnswered env) World.start turns :=
  Machine.always_iff (J := fun w : World => w.ledger.Sound) (I := NoZombies)
    (fun _ t hs => sound_turn hs t) (fun _ t hs h => noZombies_turn hs h t) sound_start
    noZombies_start

/-- The process dies while the attempt runs. -/
theorem zombie_by_restart : ¬ ∀ env turns, NoZombies (runTurns env turns) := by
  intro hall
  have h := hall (sampleEnv sampleDigest .limits)
    [.handled (sampleAssign "a" "l"), .handled .restart]
  have hlisted : (runTurns (sampleEnv sampleDigest .limits)
      [.handled (sampleAssign "a" "l"), .handled .restart]).store.activeRows.map
        AttemptRow.attemptId = [js "a"] := by
    decide +kernel
  obtain ⟨row, hrow, hid⟩ := List.mem_map.mp (hlisted ▸ List.mem_singleton_self (js "a"))
  rcases h.listed row hrow with ⟨r, hlive, -⟩ | hres
  · rw [hid] at hlive
    exact absurd hlive (by simp [runTurns, turn, step, World.restart])
  · rw [hid] at hres
    exact absurd hres (by decide +kernel)

end HuginAgent
