/-
The manager of resumed sessions, `src/src/sessions/resume-manager.ts`.

A turn is one message to a stored session: it is accepted or refused at once, its run
calls back with events and with its end, and one result closes it.  A turn that is
finalized is out of `turns`, which is where every callback looks first, so `finalized`
is no field here.

What the enumerator says of a handle, and the handle it gives a fork, come with the
action, and so does what a runner does.  A run may answer `cancel` by calling back before
it returns; where the manager goes on working after that call, the callbacks are an
argument (`sync`).
-/
import HuginAgent.Jobs.World
import HuginAgent.Kit.Machine
import HuginAgent.Kit.Table

namespace HuginAgent

/-! ### What it works on -/

/-- `SessionHandleTarget`, as far as a turn reads it. -/
structure SessionTarget where
  engine : EngineName
  sessionId : JsString
  cwd : JsString
deriving DecidableEq

/-- `session.resume.request` and `session.message`. -/
structure TurnStart where
  requestId : JsString
  message : JsString
deriving DecidableEq

/-- `ResumeDone`. -/
structure ResumeDone where
  outcome : EngineOutcome
  finalMessage : JsString
  newSessionId : Option JsString

structure ResumeSpec where
  engine : EngineName
  sessionId : JsString
  cwd : JsString
  message : JsString
  fork : Bool
deriving DecidableEq

/-- What a runner does with a turn. -/
inductive RunnerReply
  | runs
  /-- `runner.run` throws. -/
  | runThrows (message : JsString)
  /-- The run refuses its callbacks. -/
  | registerThrows (message : JsString)

abbrev RunId := Nat

inductive SessionCall
  | run (spec : ResumeSpec)
  | pause
  | resume
  | cancel (graceMs : Nat)
deriving DecidableEq

inductive SessionCallback
  | event (ev : EngineEvent)
  /-- The end of the run, and the handle a fork of it would be registered under. -/
  | done (result : ResumeDone) (forkHandle : JsString)

/-- A run and what its callbacks close over. -/
structure StartedRun where
  id : RunId
  turnId : JsString
  fork : Bool
  registered : Bool

structure TurnState where
  turnId : JsString
  key : JsString
  target : SessionTarget
  run : RunId
  sentSeq : Nat
  ackedSeq : Nat
  paused : Bool
  timeout : TimerId

structure SessionEnv where
  claude : Bool
  codex : Bool
  maxUnackedEvents : Nat
  cancelGraceMs : Nat
  /-- `turn-${randomUUID()}`, at its n-th draw. -/
  turnId : Nat → JsString
  /-- `envelope()`, at its n-th draw. -/
  envelope : Nat → Envelope

structure SessionWorld where
  active : List JsString
  turns : Table TurnState.turnId
  runs : List StartedRun
  /-- The runs that have called `onDone`. -/
  ended : List RunId
  nextRun : RunId
  timers : List (TimerId × JsString)
  nextTimer : TimerId
  draws : Nat
  sent : List JsObject
  calls : List (RunId × SessionCall)

/-! ### Messages -/

inductive TurnStatus
  | ok
  | error
  | cancelled
deriving DecidableEq

def TurnStatus.text : TurnStatus → JsString
  | ok => js "ok"
  | error => js "error"
  | cancelled => js "cancelled"

def sessionMsg (type : String) (rest : JsObject) (e : Envelope) : JsObject :=
  e.fields ++ (js "type", .lit type) :: rest

def sessionAccept (requestId turnId : JsString) (fork mutatesSource : Bool) :
    Envelope → JsObject :=
  sessionMsg "session.resume.accept"
    [(js "request_id", .str requestId),
      (js "turn_id", .str turnId),
      (js "effective_options", .obj
        [(js "fork", .bool fork), (js "sandbox", .lit "read_only"),
          (js "mutates_source", .bool mutatesSource)])]

def sessionReject (requestId code message : JsString) : Envelope → JsObject :=
  sessionMsg "session.resume.reject"
    [(js "request_id", .str requestId), (js "code", .str code), (js "message", .str message)]

def sessionEvent (turnId : JsString) (seq : Nat) (event : EngineEvent) : Envelope → JsObject :=
  sessionMsg "session.event"
    [(js "turn_id", .str turnId), (js "seq", .ofNat seq), (js "event", .obj event.fields)]

def sessionTurnResult (turnId : JsString) (status : TurnStatus) (finalMessage : JsString)
    (newSessionHandle : Option JsString) : Envelope → JsObject :=
  sessionMsg "session.turn.result"
    [(js "turn_id", .str turnId),
      (js "status", .str status.text),
      (js "final_message", .str finalMessage),
      (js "new_session_handle", .optional .str newSessionHandle)]

/-! ### Handlers -/

namespace SessionWorld

def start : SessionWorld where
  active := []
  turns := .empty
  runs := []
  ended := []
  nextRun := 0
  timers := []
  nextTimer := 0
  draws := 0
  sent := []
  calls := []

/-- `this.send({ ...envelope(), … })`. -/
def send (env : SessionEnv) (w : SessionWorld) (build : Envelope → JsObject) : SessionWorld :=
  { w with
    draws := w.draws + 1
    sent := w.sent ++ [build (env.envelope w.draws)] }

def call (w : SessionWorld) (run : RunId) (c : SessionCall) : SessionWorld :=
  { w with calls := w.calls ++ [(run, c)] }

/-- `this.turns.get(turnId)`. -/
def getTurn (w : SessionWorld) (turnId : JsString) : Option TurnState := w.turns.find? turnId

/-- Assign to fields of a `TurnState`. -/
def modifyTurn (w : SessionWorld) (turnId : JsString) (f : TurnState → TurnState)
    (hf : ∀ state, (f state).turnId = state.turnId) : SessionWorld :=
  { w with turns := w.turns.updateKey turnId f hf }

end SessionWorld

namespace SessionResumeManager

/-- `${engine}\0${session_id}\0${cwd}`. -/
def sessionKey (target : SessionTarget) : JsString :=
  engineText target.engine ++ 0 :: target.sessionId ++ 0 :: target.cwd
where
  engineText : EngineName → JsString
    | .claude => js "claude"
    | .codex => js "codex"

structure ResumePlan where
  runner : Bool
  fork : Bool
  mutatesSource : Bool

def planFor (env : SessionEnv) : EngineName → ResumePlan
  | .claude => ⟨env.claude, true, false⟩
  | .codex => ⟨env.codex, false, true⟩

def statusFromOutcome : EngineOutcome → TurnStatus
  | .success _ => .ok
  | .cancelled => .cancelled
  | .error _ _ => .error

def finalize (env : SessionEnv) (w : SessionWorld) (turnId : JsString) (status : TurnStatus)
    (finalMessage : JsString) (newSessionHandle : Option JsString) : SessionWorld :=
  match w.getTurn turnId with
  | none => w
  | some state =>
      let w := { w with timers := w.timers.filter fun t => t.1 ≠ state.timeout }
      let w := w.send env (sessionTurnResult turnId status finalMessage newSessionHandle)
      { w with
        active := w.active.filter fun key => key ≠ state.key
        turns := w.turns.delete fun s => s.turnId = turnId }

/-- `startTurn` from `active.add` on. -/
def acceptTurn (env : SessionEnv) (w : SessionWorld) (req : TurnStart) (target : SessionTarget)
    (reply : RunnerReply) : SessionWorld :=
  let key := sessionKey target
  let plan := planFor env target.engine
  let turnId := env.turnId w.draws
  let w := { w with active := key :: w.active, draws := w.draws + 1 }
  let w := w.send env (sessionAccept req.requestId turnId plan.fork plan.mutatesSource)
  let run := w.nextRun
  let w := { w with nextRun := run + 1 }.call run
    (.run ⟨target.engine, target.sessionId, target.cwd, req.message, plan.fork⟩)
  let state : TurnState :=
    { turnId
      key
      target
      run
      sentSeq := 0
      ackedSeq := 0
      paused := false
      timeout := w.nextTimer }
  let started := fun registered : Bool =>
    { w with
      runs := ⟨run, turnId, plan.fork, registered⟩ :: w.runs
      turns := w.turns.replace state
      timers := w.timers ++ [(w.nextTimer, turnId)]
      nextTimer := w.nextTimer + 1 }
  match reply with
  | .runs => started true
  | .registerThrows message => finalize env (started false) turnId .error message none
  | .runThrows message =>
      if (w.getTurn turnId).isSome then finalize env w turnId .error message none
      else
        let w := w.send env (sessionTurnResult turnId .error message none)
        { w with active := w.active.filter fun k => k ≠ key }

/-- `startTurn`, where the handle is good for `target`. -/
def startTurn (env : SessionEnv) (w : SessionWorld) (req : TurnStart)
    (target : Option SessionTarget) (reply : RunnerReply) : SessionWorld :=
  match target with
  | none => w.send env (sessionReject req.requestId (js "handle_invalid")
      (js "session handle is invalid or stale"))
  | some target =>
      if (planFor env target.engine).runner = false then
        w.send env (sessionReject req.requestId (js "engine_unavailable")
          (sessionKey.engineText target.engine ++ js " resume runner is not available"))
      else if sessionKey target ∈ w.active then
        w.send env (sessionReject req.requestId (js "session_busy")
          (js "a resume turn is already active for this session"))
      else acceptTurn env w req target reply

/-- The unacknowledged events are at the cap. -/
def atCap (env : SessionEnv) (state : TurnState) : Bool :=
  state.ackedSeq + env.maxUnackedEvents ≤ state.sentSeq

def handleRunEvent (env : SessionEnv) (w : SessionWorld) (turnId : JsString) (ev : EngineEvent) :
    SessionWorld :=
  match w.getTurn turnId with
  | none => w
  | some state =>
      let seq := state.sentSeq + 1
      let w := w.modifyTurn turnId (fun s => { s with sentSeq := seq }) fun _ => rfl
      let w := w.send env (sessionEvent turnId seq ev)
      if !state.paused && atCap env { state with sentSeq := seq } then
        (w.modifyTurn turnId (fun s => { s with paused := true }) fun _ => rfl).call state.run .pause
      else w

/-- `plan.fork && result.newSessionId ? this.registerFork(…) : undefined`. -/
def newHandleOf (run : StartedRun) (result : ResumeDone) (forkHandle : JsString) :
    Option JsString :=
  if run.fork && result.newSessionId.any fun id => id ≠ [] then some forkHandle else none

def handleRunDone (env : SessionEnv) (w : SessionWorld) (run : StartedRun) (result : ResumeDone)
    (forkHandle : JsString) : SessionWorld :=
  finalize env { w with ended := run.id :: w.ended } run.turnId (statusFromOutcome result.outcome)
    result.finalMessage (newHandleOf run result forkHandle)

/-- A run calls back. -/
def callback (env : SessionEnv) (w : SessionWorld) (run : RunId) (cb : SessionCallback) :
    SessionWorld :=
  match w.runs.find? fun r => r.id = run && r.registered with
  | none => w
  | some r =>
      match cb with
      | .event ev => handleRunEvent env w r.turnId ev
      | .done result forkHandle => handleRunDone env w r result forkHandle

/-- `state.run.cancel(grace)`, with the callbacks out of it. -/
def cancelRun (env : SessionEnv) (w : SessionWorld) (run : RunId) (sync : List SessionCallback) :
    SessionWorld :=
  sync.foldl (fun w cb => callback env w run cb) (w.call run (.cancel env.cancelGraceMs))

def handleCancel (env : SessionEnv) (w : SessionWorld) (turnId : JsString) : SessionWorld :=
  match w.getTurn turnId with
  | none => w
  | some state => w.call state.run (.cancel env.cancelGraceMs)

def maybeResume (env : SessionEnv) (w : SessionWorld) (turnId : JsString) (state : TurnState) :
    SessionWorld :=
  if !state.paused || atCap env state then w
  else
    (w.modifyTurn turnId (fun s => { s with paused := false }) fun _ => rfl).call state.run .resume

def handleAck (env : SessionEnv) (w : SessionWorld) (turnId : JsString) (ackSeq : Nat) :
    SessionWorld :=
  match w.getTurn turnId with
  | none => w
  | some state =>
      let ackedSeq := max state.ackedSeq (min ackSeq state.sentSeq)
      let w := w.modifyTurn turnId (fun s => { s with ackedSeq }) fun _ => rfl
      maybeResume env w turnId { state with ackedSeq }

/-- Cancel a turn and report it. -/
def giveUp (env : SessionEnv) (w : SessionWorld) (turnId : JsString) (status : TurnStatus)
    (message : JsString) (sync : List SessionCallback) : SessionWorld :=
  match w.getTurn turnId with
  | none => w
  | some state => finalize env (cancelRun env w state.run sync) turnId status message none

/-- The timeout of a turn fires. -/
def onTimeout (env : SessionEnv) (w : SessionWorld) (id : TimerId) (sync : List SessionCallback) :
    SessionWorld :=
  match w.timers.find? fun t => t.1 = id with
  | none => w
  | some t => giveUp env { w with timers := w.timers.filter fun u => u.1 ≠ id } t.2 .error
      (js "resume turn timed out") sync

/-- The loop over the turns there are when it begins. -/
def cancelTurns (env : SessionEnv) (sync : JsString → List SessionCallback) :
    SessionWorld → List JsString → SessionWorld
  | w, [] => w
  | w, turnId :: rest =>
      cancelTurns env sync
        (giveUp env w turnId .cancelled (js "session connection closed") (sync turnId)) rest

def cancelActiveTurns (env : SessionEnv) (w : SessionWorld)
    (sync : JsString → List SessionCallback) : SessionWorld :=
  cancelTurns env sync w (w.turns.rows.map TurnState.turnId)

end SessionResumeManager

/-! ### Runs -/

inductive SessionAction
  /-- `handleRequest` or `handleMessage`. -/
  | start (req : TurnStart) (target : Option SessionTarget) (reply : RunnerReply)
  | cancel (turnId : JsString)
  | ack (turnId : JsString) (ackSeq : Nat)
  | callback (run : RunId) (cb : SessionCallback)
  | timeout (id : TimerId) (sync : List SessionCallback)
  /-- The connection has ended. -/
  | close (sync : JsString → List SessionCallback)

namespace SessionWorld

open SessionResumeManager in
def step (env : SessionEnv) (w : SessionWorld) : SessionAction → SessionWorld
  | .start req target reply => startTurn env w req target reply
  | .cancel turnId => handleCancel env w turnId
  | .ack turnId ackSeq => handleAck env w turnId ackSeq
  | .callback run cb => SessionResumeManager.callback env w run cb
  | .timeout id sync => onTimeout env w id sync
  | .close sync => cancelActiveTurns env w sync

/-- The state of the manager after a run. -/
def runFrom (env : SessionEnv) (acts : List SessionAction) : SessionWorld :=
  Machine.run (step env) start acts

end SessionWorld

end HuginAgent
