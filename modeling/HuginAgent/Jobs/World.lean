/-
What the job manager works on.

`World` is the manager's own state (registry, `startedAt`, event log), the heap of
`JobState` objects, and the environment it talks to: the clock, the armed
timeouts, the engine runs whose callbacks are registered, and two logs, of what
was handed to `send` and of the methods called on engine runs.  A message counts
as sent when the manager calls `send`; what a connection does with it is modelled
in the daemon.

Random ids and the wall clock of envelopes come from `Env`, drawn one after the
other, and so do the hash of `node:crypto` and the configuration.
-/
import Mathlib.Logic.Function.Basic
import HuginAgent.Conn.Outbound
import HuginAgent.Jobs.Registry
import HuginAgent.Protocol.Digest
import HuginAgent.Store.EventLog

namespace HuginAgent

/-! ### The engine interface, `src/src/engine/types.ts` -/

structure EngineSpec where
  engine : EngineName
  prompt : JsString
  attemptId : JsString
  repoRoot : JsString
  baseSha : Option JsString
  cwd : Option JsString
  sandbox : Sandbox
deriving DecidableEq

inductive EngineOutcome
  | success (exitCode : Option JsNumber)
  | error (exitCode : Option JsNumber) (errorKind : Option JsString)
  | cancelled

structure ApprovalRequest where
  requestId : JsString
  toolName : JsString
  input : JsValue
  risk : Option Risk

/-- What a run calls back with. -/
inductive Callback
  | event (ev : EngineEvent)
  | done (outcome : EngineOutcome)
  | approval (req : ApprovalRequest)

/-- A method called on an engine run, or `engine.run` itself. -/
inductive EngineCall
  | run (spec : EngineSpec)
  | pause
  | resume
  | cancel (graceMs : Nat)
  | resolveApproval (requestId : JsString) (decision : ApprovalDecision) (reason : Option JsString)
deriving DecidableEq

def EngineCall.isRun : EngineCall → Bool
  | run _ => true
  | _ => false

def EngineCall.isCancel : EngineCall → Bool
  | cancel _ => true
  | _ => false

/-- What the engine answers an assignment with. -/
structure EngineReply where
  /-- `engine.validate?.(spec)`. -/
  rejection : Option (RejectCode × JsString) := none
  /-- `engine.run` throws before it returns a run. -/
  runThrows : Bool := false

/-! ### The world -/

structure Caps where
  events : Nat
  bytes : Nat
  conn : Nat

structure Env where
  caps : Caps
  maxConcurrent : Nat
  gateAvailable : Bool := true
  approvalTimeoutMs : Nat := approvalTimeoutMsDefault
  /-- `agentRunId()`, at its n-th draw. -/
  agentRunId : Nat → JsString
  /-- `envelope()`, at its n-th draw. -/
  envelope : Nat → Envelope
  sha256Base64Url : JsString → JsString

/-- An armed auto-deny timeout and what it closes over. -/
structure ArmedTimer where
  id : TimerId
  state : Ref
  requestId : JsString

structure World where
  jobs : Ref → JobState
  nextRef : Ref
  registry : JobRegistry
  startedAt : AList fun _ : JsString => Int
  store : EventLog
  now : Int
  timers : List ArmedTimer
  nextTimer : TimerId
  /-- The runs whose callbacks this process has registered. -/
  runs : List Ref
  /-- The runs that have called `onDone`. -/
  ended : List Ref
  draws : Nat
  sent : List JsObject
  calls : List (Ref × EngineCall)

/-- What a `Ref` holds before it is given out. -/
def JobState.blank : JobState where
  jobId := []
  attemptId := []
  leaseId := []
  agentRunId := []
  status := .accepted
  seq := 0
  totalBytes := 0
  run := none
  paused := false
  fenced := false
  approvalTimers := ∅
  prevLease := none
  leaseOverlapUntil := none

namespace World

def start : World where
  jobs := fun _ => .blank
  nextRef := 0
  registry := .empty
  startedAt := ∅
  store := .empty
  now := 0
  timers := []
  nextTimer := 0
  runs := []
  ended := []
  draws := 0
  sent := []
  calls := []

/-- `this.send(msg)`. -/
def emit (w : World) (msg : JsObject) : World := { w with sent := w.sent ++ [msg] }

/-- `this.send(builder(…))`: the builder draws an envelope. -/
def send (env : Env) (w : World) (build : Envelope → JsObject) : World :=
  { w with draws := w.draws + 1 }.emit (build (env.envelope w.draws))

/-- Assign to fields of a `JobState`. -/
def modifyJob (w : World) (r : Ref) (f : JobState → JobState) : World :=
  { w with jobs := Function.update w.jobs r (f (w.jobs r)) }

/-- `state.run?.call`. -/
def callRun (w : World) (r : Ref) (call : EngineCall) : World :=
  { w with calls := w.calls ++ ((w.jobs r).run.map fun run => (run, call)).toList }

/-- `clearApprovals(state)`. -/
def clearApprovals (w : World) (r : Ref) : World :=
  let ids := (w.jobs r).approvalTimers.entries.map Sigma.snd
  { w with timers := w.timers.filter fun t => !ids.contains t.id }.modifyJob r
    fun s => { s with approvalTimers := ∅ }

@[simp] theorem jobs_modifyJob_self (w : World) (r : Ref) (f : JobState → JobState) :
    (w.modifyJob r f).jobs r = f (w.jobs r) := Function.update_self _ _ _

@[simp] theorem jobs_modifyJob_of_ne (w : World) {r q : Ref} (f : JobState → JobState)
    (h : q ≠ r) : (w.modifyJob r f).jobs q = w.jobs q := Function.update_of_ne h _ _

end World

/-- The context of every message about a job. -/
def JobState.ctx (s : JobState) : AttemptCtx := ⟨s.jobId, s.attemptId, s.leaseId⟩

end HuginAgent
