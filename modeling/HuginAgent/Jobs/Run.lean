/-
Runs of the job manager.

An `Action` is one thing that reaches the manager: a message, one resume
directive, an engine callback, a timeout, the passing of time, or the death and
restart of the process.  A run is a list of actions in any order and with any
repetition.  A reconnect is not an action: registry and manager belong to the
daemon, and all a new connection brings is its directives.

A directive is an action of its own, so that a run may put anything between two of
them; `applyResume_run` says that what `applyResume` does is one such run.
-/
import HuginAgent.Jobs.Manager
import HuginAgent.Kit.Machine

namespace HuginAgent

inductive Action
  | assign (msg : JobAssign) (reply : EngineReply)
  | streamAck (msg : StreamAck)
  | resultAck (msg : JobResultAck)
  | cancel (msg : JobCancel)
  | approvalResponse (msg : ApprovalResponse)
  | leaseGranted (msg : LeaseGranted)
  | revoke (msg : LeaseRevoke) (sync : List Callback)
  | resume (d : ResumeDirective) (sync : List Callback)
  | callback (r : Ref) (cb : Callback)
  | timer (id : TimerId)
  | tick (ms : Nat)
  | restart

/-- A new process over the same database: everything in memory is gone. -/
def World.restart (w : World) : World :=
  { w with registry := .empty, startedAt := ∅, timers := [], runs := [] }

open JobManager in
def step (env : Env) (w : World) : Action → World
  | .assign msg reply => handleAssign env w msg reply
  | .streamAck msg => handleStreamAck env w msg
  | .resultAck msg => handleResultAck w msg
  | .cancel msg => handleCancel env w msg
  | .approvalResponse msg => handleApprovalResponse w msg
  | .leaseGranted msg => handleLeaseGranted w msg
  | .revoke msg sync => handleRevoke env w msg sync
  | .resume d sync => (applyDirective env w d sync).1
  | .callback r cb => JobManager.callback env w r cb
  | .timer id => onTimer w id
  | .tick ms => { w with now := w.now + ms }
  | .restart => w.restart

/-- The state of the manager after a run. -/
def runFrom (env : Env) (acts : List Action) : World := Machine.run (step env) World.start acts

/-- Every action of the run meets `P` in the state it comes in. -/
def Along (env : Env) (P : World → Action → Prop) (acts : List Action) : Prop :=
  Machine.Along (step env) P World.start acts

instance decidableAlong (env : Env) (P : World → Action → Prop) [∀ w act, Decidable (P w act)]
    (acts : List Action) : Decidable (Along env P acts) :=
  Machine.decidableAlong (step env) P World.start acts

theorem runFrom_append (env : Env) (acts more : List Action) :
    runFrom env (acts ++ more) = Machine.run (step env) (runFrom env acts) more :=
  Machine.run_append _ _ _ _

theorem runFrom_snoc (env : Env) (acts : List Action) (a : Action) :
    runFrom env (acts ++ [a]) = step env (runFrom env acts) a := runFrom_append env acts [a]

/-- The engine sends nothing after `onDone`. -/
def SilentWhenDone (w : World) : Action → Prop
  | .callback r (.event _) => r ∉ w.ended
  | _ => True

instance : ∀ (w : World) (act : Action), Decidable (SilentWhenDone w act)
  | w, .callback r (.event _) => inferInstanceAs (Decidable (r ∉ w.ended))
  | _, .callback _ (.approval _) | _, .callback _ (.done _) | _, .assign .. | _, .streamAck _
  | _, .resultAck _ | _, .cancel _ | _, .approvalResponse _ | _, .leaseGranted _ | _, .revoke ..
  | _, .resume .. | _, .timer _ | _, .tick _ | _, .restart => .isTrue trivial

/-- **`applyResume` is a run of its directives, up to the one that throws.** -/
theorem applyResume_run (env : Env) (ds : List (ResumeDirective × List Callback)) (w : World) :
    ∃ done rest, ds = done ++ rest ∧ (JobManager.applyResume env w ds).1 =
      Machine.run (step env) w (done.map fun d => .resume d.1 d.2) := by
  induction ds generalizing w with
  | nil => exact ⟨[], [], rfl, rfl⟩
  | cons d ds ih =>
      rw [JobManager.applyResume]
      rcases hd : JobManager.applyDirective env w d.1 d.2 with ⟨w', _ | e⟩
      · obtain ⟨done, rest, hds, hrun⟩ := ih w'
        refine ⟨d :: done, rest, by rw [hds]; rfl, ?_⟩
        simp only [List.map_cons, Machine.run_cons, step, hd]
        exact hrun
      · refine ⟨[d], ds, rfl, ?_⟩
        simp only [List.map_cons, List.map_nil, Machine.run_cons, Machine.run_nil, step, hd]

/-! ### A small configuration -/

/-- Every id is the number of its draw.  One digest is enough where one text is hashed. -/
def sampleEnv (digest : JsString) (caps : Caps) : Env where
  caps
  maxConcurrent := 2
  agentRunId n := js "run-" ++ (JsNumber.ofInt n).text
  envelope n := ⟨js "msg-" ++ (JsNumber.ofInt n).text, js "2026-01-01T00:00:00.000Z"⟩
  sha256Base64Url _ := digest

/-- The digest of the result of attempt `a` under lease `l` when it succeeds at once, without
an event. -/
def sampleDigest : JsString := js "0LKoR54TWIUOGa-0HeX8yVg-vuYmymkxzZ9_FC8yfWY"

/-- The caps of `LIMITS`. -/
def Caps.limits : Caps := ⟨1024, 8388608, 33554432⟩

def sampleAssign (attemptId leaseId : String) : Action :=
  .assign
    { jobId := js "job"
      attemptId := js attemptId
      leaseId := js leaseId
      engine := .claude
      workspace := ⟨js "/repo", none, none⟩
      prompt := js "go"
      sandbox := .readOnly
      approvalPolicy := .never } {}

def sampleEvent : EngineEvent := ⟨[(js "kind", .lit "usage")], by decide⟩

/-- The same where the attempt calls back with `sampleEvent` first. -/
def sampleDigestOne : JsString := js "9lNttjPwVQbjNvZpr6Pa0rhuioob74HE9coAEmFIvxw"

/-- A directive that carries no lease. -/
def sampleDrop (attemptId : String) (action : ResumeAction)
    (h : action ≠ .resumeFrom ∧ action ≠ .resendResult) : Action :=
  .resume
    { attemptId := js attemptId
      action
      resumeAfterSeq := none
      leaseId := none
      leaseNonempty := by simp
      leaseRequired := fun hc => absurd hc (by simp [h]) } []

/-- A directive that carries a lease. -/
def sampleResume (attemptId : String) (action : ResumeAction) (after : Option Nat) (leaseId : String)
    (h : js leaseId ≠ []) : Action :=
  .resume
    { attemptId := js attemptId
      action
      resumeAfterSeq := after
      leaseId := some (js leaseId)
      leaseNonempty := by simp [h]
      leaseRequired := fun _ => by simp } []

end HuginAgent
