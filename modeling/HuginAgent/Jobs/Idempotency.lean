/-
At-least-once delivery of `job.assign`.

An assignment calls `engine.run` when it is new, and it is new when neither the
registry nor the event log knows the attempt.  In every reachable state that means
that the attempt has no row, and a row goes when the server is done with the
attempt: its result is acknowledged or confirmed, or it is abandoned or revoked.
From then on a late duplicate of the assignment is new again, so a pair of attempt
and lease runs once exactly where no such duplicate is let in.
-/
import HuginAgent.Jobs.Calls

namespace HuginAgent

open JobManager Ledger

variable {env : Env} {w : World}

/-- How often `engine.run` was called. -/
def runCalls (w : World) : Nat := w.calls.countP fun call => call.2.isRun

/-- The action calls `engine.run`. -/
def StartsRun (env : Env) (w : World) (act : Action) : Prop :=
  runCalls w < runCalls (step env w act)

instance (env : Env) (w : World) (act : Action) : Decidable (StartsRun env w act) :=
  inferInstanceAs (Decidable (_ < _))

/-- All that is sent between the two worlds is one `job.accept` or `job.reject` at most. -/
def AnswersOnly (w w' : World) : Prop :=
  ∃ msgs : List JsObject, w'.sent = w.sent ++ msgs ∧ msgs.length ≤ 1 ∧
    ∀ o ∈ msgs, o.get (js "type") = .lit "job.accept" ∨ o.get (js "type") = .lit "job.reject"

/-- The same attempt under the same lease. -/
def SamePair (msg msg' : JobAssign) : Prop :=
  msg'.attemptId = msg.attemptId ∧ msg'.leaseId = msg.leaseId

/-- Every attempt and lease runs once. -/
structure Idempotent (env : Env) (acts : List Action) : Prop where
  single : ∀ before act after, acts = before ++ act :: after → StartsRun env (runFrom env before) act →
    (∃ msg reply, act = .assign msg reply) ∧
      runCalls (step env (runFrom env before) act) = runCalls (runFrom env before) + 1
  repeated : ∀ before msg reply middle msg' reply' after,
    acts = before ++ .assign msg reply :: (middle ++ .assign msg' reply' :: after) →
    StartsRun env (runFrom env before) (.assign msg reply) → SamePair msg msg' →
    let w := runFrom env (before ++ .assign msg reply :: middle)
    ¬ StartsRun env w (.assign msg' reply') ∧ AnswersOnly w (step env w (.assign msg' reply'))

/-! ### What starts a run -/

theorem countP_onRun (w : World) (r : Ref) {call : EngineCall} (h : call.isRun = false) :
    (onRun w r call).countP (fun c => c.2.isRun) = 0 := by
  unfold onRun
  cases (w.jobs r).run with
  | none => rfl
  | some q => simp [h]

theorem runCalls_step (act : Action) :
    runCalls (step env w act) = runCalls w +
      match act with
      | .assign msg reply => if accepts env w msg reply then 1 else 0
      | _ => 0 := by
  rw [runCalls, step_calls, List.countP_append]
  congr 1
  cases act with
  | assign msg reply =>
      simp only [callsOf]
      split <;> rfl
  | callback r cb =>
      cases cb with
      | event ev =>
          simp only [callsOf, callsOfCallback]
          repeat' split
          all_goals first | rfl | exact countP_onRun w _ rfl
      | _ => rfl
  | _ =>
      simp only [callsOf]
      repeat' split
      all_goals first | rfl | exact countP_onRun w _ rfl

theorem startsRun_iff (msg : JobAssign) (reply : EngineReply) :
    StartsRun env w (.assign msg reply) ↔ accepts env w msg reply = true := by
  rw [StartsRun, runCalls_step]
  cases h : accepts env w msg reply with
  | false => simp [h]
  | true => simp [h]

theorem single_run {act : Action} (h : StartsRun env w act) :
    (∃ msg reply, act = .assign msg reply) ∧ runCalls (step env w act) = runCalls w + 1 := by
  cases act with
  | assign msg reply =>
      refine ⟨⟨msg, reply, rfl⟩, ?_⟩
      rw [runCalls_step]
      simp only [(startsRun_iff msg reply).mp h, if_true]
  | _ =>
      rw [StartsRun, runCalls_step] at h
      exact absurd h (lt_irrefl _)

theorem answersOnly_of_known {msg : JobAssign} {reply : EngineReply}
    (h : accepts env w msg reply = false) :
    AnswersOnly w (step env w (.assign msg reply)) := by
  rw [step, handleAssign]
  cases hex : existing w msg.attemptId with
  | some found =>
      simp only
      split
      · refine ⟨[_], rfl, le_refl 1, ?_⟩
        intro o ho
        obtain rfl := List.mem_singleton.mp ho
        exact Or.inl rfl
      · refine ⟨[_], rfl, le_refl 1, ?_⟩
        intro o ho
        obtain rfl := List.mem_singleton.mp ho
        exact Or.inr rfl
  | none =>
      cases href : refusal env w msg reply with
      | none => exact absurd h (by simp [accepts, hex, href])
      | some rej =>
          refine ⟨[_], rfl, le_refl 1, ?_⟩
          intro o ho
          obtain rfl := List.mem_singleton.mp ho
          exact Or.inr rfl

/-! ### How long an attempt is remembered -/

/-- The attempt was dropped in the run and not taken up again since. -/
def droppedSince (env : Env) (a : JsString) (w : World) (acts : List Action) : Bool :=
  Machine.track (step env) (fun w act dropped => !takesUp env w a act && (drops w a act || dropped))
    w false acts

/-- A second assignment of a pair that has run comes after its attempt was dropped, and nothing
else speaks against it. -/
def ForgottenDuplicate (env : Env) (acts : List Action) : Prop :=
  ∃ before msg reply middle msg' reply' after,
    acts = before ++ .assign msg reply :: (middle ++ .assign msg' reply' :: after) ∧
    SamePair msg msg' ∧ accepts env (runFrom env before) msg reply = true ∧
    droppedSince env msg.attemptId (runFrom env (before ++ [.assign msg reply])) middle = true ∧
    refusal env (runFrom env (before ++ .assign msg reply :: middle)) msg' reply' = none

theorem existing_isSome (hs : w.ledger.Sound) (a : JsString) :
    (existing w a).isSome = (w.ledger.rows a).isSome := by
  unfold existing
  cases hlive : w.registry.get a with
  | none => simp [World.ledger, EventLog.rows, EventLog.getAttempt]
  | some r =>
      obtain ⟨row, hrow, -⟩ := hs.row a r hlive
      simp [hrow]

/-- **An attempt that was on record still is, unless it was dropped since.** -/
theorem recorded_run (a : JsString) (acts : List Action) (hs : w.ledger.Sound)
    (hrow : (w.ledger.rows a).isSome = true) :
    ((Machine.run (step env) w acts).ledger.rows a).isSome = !droppedSince env a w acts := by
  have htrack := Machine.track_invariant_all (step env)
    (fun w act dropped => !takesUp env w a act && (drops w a act || dropped))
    (I := fun w dropped => w.ledger.Sound ∧ (w.ledger.rows a).isSome = !dropped) ?_
    (s := w) (n := false) ⟨hs, hrow⟩ acts
  · exact htrack.2
  · intro w act dropped hI
    obtain ⟨hs, hrow⟩ := hI
    refine ⟨sound_step hs act, ?_⟩
    rw [(step_refines env hs act).recorded a, hrow, ← takesUp_eq, ← drops_eq env]
    cases takesUp env w a act <;> cases drops w a act <;> simp

/-- After its acceptance an attempt is known until it is dropped. -/
theorem existing_after {before : List Action} {msg : JobAssign} {reply : EngineReply}
    (haccept : accepts env (runFrom env before) msg reply = true) (middle : List Action) :
    (existing (runFrom env (before ++ .assign msg reply :: middle)) msg.attemptId).isSome =
      !droppedSince env msg.attemptId (runFrom env (before ++ [.assign msg reply])) middle := by
  rw [existing_isSome (ledger_sound env _), runFrom_append, Machine.run_cons, runFrom_snoc]
  refine recorded_run msg.attemptId middle (sound_step (ledger_sound env before) _) ?_
  have hrec := (step_refines env (ledger_sound env before) (.assign msg reply)).recorded
    msg.attemptId
  rw [hrec, ← takesUp_eq]
  simp [takesUp, haccept]

/-! ### At most one run -/

/-- **Every attempt and lease runs once where no duplicate comes after its attempt was dropped,
and nowhere else.** -/
theorem idempotent_iff (env : Env) (acts : List Action) :
    Idempotent env acts ↔ ¬ ForgottenDuplicate env acts := by
  constructor
  · intro hidem hdup
    obtain ⟨before, msg, reply, middle, msg', reply', after, hacts, hpair, haccept, hdropped,
      href⟩ := hdup
    have hrep := hidem.repeated before msg reply middle msg' reply' after hacts
      ((startsRun_iff msg reply).mpr haccept) hpair
    refine hrep.1 ((startsRun_iff msg' reply').mpr ?_)
    have hex := existing_after haccept middle
    rw [hdropped] at hex
    rw [accepts, href, hpair.1]
    simpa using hex
  · intro hdup
    refine ⟨fun before act after _ h => single_run h, ?_⟩
    intro before msg reply middle msg' reply' after hacts hstart hpair w
    have haccept := (startsRun_iff msg reply).mp hstart
    have hno : accepts env w msg' reply' = false := by
      by_contra hc
      rw [Bool.not_eq_false, accepts, Bool.and_eq_true, Option.isNone_iff_eq_none,
        Option.isNone_iff_eq_none, hpair.1] at hc
      refine hdup ⟨before, msg, reply, middle, msg', reply', after, hacts, hpair, haccept, ?_, hc.2⟩
      have hex := existing_after haccept middle
      rw [show existing (runFrom env (before ++ .assign msg reply :: middle)) msg.attemptId = none
        from hc.1] at hex
      simpa using hex
    refine ⟨?_, answersOnly_of_known hno⟩
    rw [startsRun_iff, hno]
    simp

/-- A duplicate that comes after the result was acknowledged runs the job again. -/
theorem runs_again_after_ack : ¬ ∀ env acts, Idempotent env acts := by
  intro hall
  have h := hall (sampleEnv sampleDigest .limits)
    [sampleAssign "a" "l", .callback 0 (.done (.success none)),
      .resultAck ⟨js "a", js "l", sampleDigest⟩, sampleAssign "a" "l"]
  have hrep := h.repeated [] _ _ [.callback 0 (.done (.success none)),
    .resultAck ⟨js "a", js "l", sampleDigest⟩] _ _ [] rfl (by decide +kernel) ⟨rfl, rfl⟩
  exact hrep.1 (by decide +kernel)

end HuginAgent
