/-
A run of Claude Code, `ClaudeEngine.run` of `src/src/engine/claude.ts`.

A run is what its callbacks make of whatever comes: the deferred start, the bridge, the output of
the child, its error and its close, the timers, and the calls of whoever holds the run.  They
come in any order that the state allows, and a callback runs to its end before the next.  The
holder pauses from inside the callback of an event, or between callbacks.

`log` is what the run does that others can see, in order, with the pauses of the holder in
between.  Nothing catches what a callback throws, so there the process ends.
-/
import HuginAgent.Engine.Normalize
import HuginAgent.Js.Chunks
import HuginAgent.Kit.Machine
import HuginAgent.Kit.Timers

namespace HuginAgent

/-! ### What others see -/

inductive EventSource
  | stdout
  | stderr
  | engine
deriving DecidableEq

inductive RunSignal
  | term
  | kill
deriving DecidableEq

inductive RunEffect
  | event (source : EventSource) (ev : JsObject)
  | approval (req : ApprovalRequest)
  | done (outcome : EngineOutcome)
  | signal (sig : RunSignal)
  | paused
  | resumed

namespace RunEffect

def isEvent : RunEffect → Bool
  | event _ _ => true
  | _ => false

def isDone : RunEffect → Bool
  | done _ => true
  | _ => false

/-- An event or a request of the run. -/
def isHeard : RunEffect → Bool
  | event _ _ | approval _ => true
  | _ => false

def isSignal : RunEffect → Bool
  | signal _ => true
  | _ => false

/-- The event, if it is one of the child's output. -/
def stdoutEvent : RunEffect → Option JsObject
  | event .stdout ev => some ev
  | _ => none

end RunEffect

/-- The events so far. -/
def eventCount (log : List RunEffect) : Nat := log.countP RunEffect.isEvent

def stdoutEvents (log : List RunEffect) : List JsObject := log.filterMap RunEffect.stdoutEvent

/-! ### Events -/

/-- The events of a line of the output; `none` where reading it throws. -/
def claudeLineEvents (number : Decimal → JsNumber) (line : JsString) : Option (List JsObject) :=
  if trim line = [] then some []
  else
    match parse (trim line) with
    | none => some []
    | some parsed => normalizeClaudeLine (parsed.loaded number)

def stderrChunk (text : JsString) : JsObject :=
  [(js "kind", .lit "stderr_chunk"), (js "text", .str text)]

def engineError (error : JsString) : JsObject :=
  [(js "kind", .lit "engine_error"), (js "error", .str error)]

def workspaceError (error code : JsString) : JsObject :=
  engineError error ++ [(js "code", .str code)]

/-! ### The state -/

/-- What does not change in a run: the options, the holder, and whether what is removed goes. -/
structure RunEnv where
  number : Decimal → JsNumber
  /-- Does the holder pause in the callback of its nth event? -/
  pauses : Nat → Bool
  /-- `opts.timeoutMs`. -/
  timed : Bool
  /-- `opts.approvalBridge`. -/
  bridged : Bool
  worktreeGoes : Bool
  runDirGoes : Bool

inductive StartPhase
  | deferred
  /-- `await bridge.start()`. -/
  | binding
  | ended
deriving DecidableEq

inductive RunTimer
  | timeout
  | kill
deriving DecidableEq

/-- Where an error was thrown that nothing catches. -/
inductive RunFault
  | start
  | callback
deriving DecidableEq

structure ChildProcess where
  /-- None if it could not be spawned. -/
  pid : Option Nat
deriving DecidableEq

structure ClaudeRun where
  phase : StartPhase
  finished : Bool
  cancelled : Bool
  paused : Bool
  /-- The worktree is there. -/
  worktree : Bool
  /-- The run directory is there. -/
  runDir : Bool
  bridgeOpen : Bool
  child : Option ChildProcess
  stdoutBuf : JsString
  timeoutTimer : Option Nat
  killTimer : Option Nat
  timers : Timers RunTimer
  fault : Option RunFault
  log : List RunEffect

namespace ClaudeRun

def fresh (env : RunEnv) : ClaudeRun where
  phase := .deferred
  finished := false
  cancelled := false
  paused := false
  worktree := false
  runDir := env.bridged
  bridgeOpen := env.bridged
  child := none
  stdoutBuf := []
  timeoutTimer := none
  killTimer := none
  timers := .empty
  fault := none
  log := []

/-! ### The functions of a run -/

def note (st : ClaudeRun) (e : RunEffect) : ClaudeRun := { st with log := st.log ++ [e] }

def pause (st : ClaudeRun) : ClaudeRun := { st.note .paused with paused := true }

def emit (env : RunEnv) (source : EventSource) (st : ClaudeRun) (ev : JsObject) : ClaudeRun :=
  if env.pauses (eventCount st.log) then (st.note (.event source ev)).pause
  else st.note (.event source ev)

def finish (env : RunEnv) (st : ClaudeRun) (outcome : EngineOutcome) : ClaudeRun :=
  if st.finished then st
  else
    { st.note (.done outcome) with
      finished := true
      timers := (st.timers.clear st.timeoutTimer).clear st.killTimer
      worktree := st.worktree && !env.worktreeGoes
      runDir := st.runDir && !env.runDirGoes
      bridgeOpen := false }

/-- The lines that are complete, one after the other. -/
def drainLines (env : RunEnv) : List JsString → JsString → ClaudeRun → ClaudeRun
  | [], rest, st => { st with stdoutBuf := rest }
  | line :: lines, rest, st =>
      if st.paused then { st with stdoutBuf := joinLines newline (line :: lines) rest }
      else
        match claudeLineEvents env.number line with
        | none =>
            { st with stdoutBuf := joinLines newline lines rest, fault := some .callback }
        | some events => drainLines env lines rest (events.foldl (emit env .stdout) st)

def drain (env : RunEnv) (st : ClaudeRun) : ClaudeRun :=
  drainLines env (splitLines newline st.stdoutBuf).1 (splitLines newline st.stdoutBuf).2 st

def killGroup (st : ClaudeRun) (sig : RunSignal) : ClaudeRun :=
  if (st.child.bind ChildProcess.pid).isSome then st.note (.signal sig) else st

/-! ### The start -/

inductive SpawnResult
  | throws
  | child (pid : Option Nat)

/-- What `createWorktree` throws. -/
structure WorkspaceFault where
  message : JsString
  code : Option JsString

def setTimeoutTimer (env : RunEnv) (st : ClaudeRun) : ClaudeRun :=
  if env.timed then
    { st with timeoutTimer := some st.timers.next, timers := st.timers.set .timeout }
  else st

/-- The child and its listeners. -/
def spawn (env : RunEnv) (st : ClaudeRun) : SpawnResult → ClaudeRun
  | .throws => { st with phase := .ended, fault := some .start }
  | .child pid => { st with phase := .ended, child := some ⟨pid⟩ }.setTimeoutTimer env

/-- The start fails. -/
def abort (env : RunEnv) (st : ClaudeRun) (ev : JsObject) (errorKind : JsString) : ClaudeRun :=
  ({ st with phase := .ended }.emit env .engine ev).finish env (.error none (some errorKind))

/-- The deferred start, up to the bridge if there is one. -/
def start (env : RunEnv) (st : ClaudeRun) (worktree : Except WorkspaceFault Unit)
    (spawned : SpawnResult) : ClaudeRun :=
  if st.finished then { st with phase := .ended }
  else
    match worktree with
    | .error e =>
        let code := e.code.getD (js "workspace_error")
        st.abort env (workspaceError e.message code) code
    | .ok () =>
        if env.bridged then { st with worktree := true, phase := .binding }
        else { st with worktree := true }.spawn env spawned

def bridgeFailed (env : RunEnv) (st : ClaudeRun) (message : JsString) : ClaudeRun :=
  st.abort env (engineError (js "approval bridge failed: " ++ message)) (js "approval_bridge")

/-- The start from where the bridge listens; writing its configuration may fail. -/
def bridgeStarted (env : RunEnv) (st : ClaudeRun) (config : Except JsString Unit)
    (spawned : SpawnResult) : ClaudeRun :=
  if st.finished then { st with phase := .ended }
  else
    match config with
    | .error message =>
        st.abort env (engineError (js "mcp-config write failed: " ++ message)) (js "approval_bridge")
    | .ok () => st.spawn env spawned

/-! ### The child -/

def stdoutData (env : RunEnv) (st : ClaudeRun) (chunk : List UInt8) : ClaudeRun :=
  { st with stdoutBuf := st.stdoutBuf ++ utf8Decode chunk }.drain env

def stderrData (env : RunEnv) (st : ClaudeRun) (chunk : List UInt8) : ClaudeRun :=
  st.emit env .stderr (stderrChunk (utf8Decode chunk))

def childError (env : RunEnv) (st : ClaudeRun) (error : JsString) : ClaudeRun :=
  (st.emit env .engine (engineError error)).finish env (.error none (some (js "spawn_failed")))

def closeOutcome (cancelled signalled : Bool) (code : Option JsNumber) : EngineOutcome :=
  if cancelled || signalled then .cancelled
  else if code = some (.ofInt 0) then .success (some (.ofInt 0))
  else .error code (some (js "nonzero_exit"))

def close (env : RunEnv) (st : ClaudeRun) (code : Option JsNumber) (signalled : Bool) : ClaudeRun :=
  if (st.drain env).fault.isSome then st.drain env
  else (st.drain env).finish env (closeOutcome (st.drain env).cancelled signalled code)

/-! ### Timers and calls -/

def fire (env : RunEnv) (st : ClaudeRun) (n : Nat) : ClaudeRun :=
  match st.timers.find n with
  | none => st
  | some .timeout =>
      ({ st with timers := st.timers.clear (some n), cancelled := true }.killGroup .kill).finish env
        (.error none (some (js "timeout")))
  | some .kill => { st with timers := st.timers.clear (some n) }.killGroup .kill

def resume (env : RunEnv) (st : ClaudeRun) : ClaudeRun :=
  { st.note .resumed with paused := false }.drain env

def setKillTimer (st : ClaudeRun) : ClaudeRun :=
  { st with killTimer := some st.timers.next, timers := st.timers.set .kill }

def cancel (env : RunEnv) (st : ClaudeRun) : ClaudeRun :=
  if st.child.isNone || st.finished then { st with cancelled := true }.finish env .cancelled
  else ({ st with cancelled := true }.killGroup .term).setKillTimer

/-- A request that comes over a socket of the bridge; closing the bridge ends its sockets. -/
def raise (st : ClaudeRun) (req : ApprovalRequest) : ClaudeRun :=
  if st.bridgeOpen then st.note (.approval req) else st

end ClaudeRun

/-! ### Steps -/

/-- What comes to a run.  The outcomes of what it calls in the course come with it. -/
inductive RunInput
  | start (worktree : Except ClaudeRun.WorkspaceFault Unit) (spawned : ClaudeRun.SpawnResult)
  | bridgeFailed (message : JsString)
  | bridgeStarted (config : Except JsString Unit) (spawned : ClaudeRun.SpawnResult)
  | stdout (chunk : List UInt8)
  | stderr (chunk : List UInt8)
  | childError (error : JsString)
  | close (code : Option JsNumber) (signalled : Bool)
  | timer (n : Nat)
  | approval (req : ApprovalRequest)
  | pause
  | resume
  | cancel (graceMs : JsNumber)

namespace ClaudeRun

/-- Does the input come in this state? -/
def Admits (st : ClaudeRun) : RunInput → Bool
  | .start _ _ => st.phase = .deferred
  | .bridgeFailed _ | .bridgeStarted _ _ => st.phase = .binding
  | .stdout _ | .stderr _ | .childError _ | .close _ _ => st.child.isSome
  | _ => true

def handle (env : RunEnv) (st : ClaudeRun) : RunInput → ClaudeRun
  | .start worktree spawned => st.start env worktree spawned
  | .bridgeFailed message => st.bridgeFailed env message
  | .bridgeStarted config spawned => st.bridgeStarted env config spawned
  | .stdout chunk => st.stdoutData env chunk
  | .stderr chunk => st.stderrData env chunk
  | .childError error => st.childError env error
  | .close code signalled => st.close env code signalled
  | .timer n => st.fire env n
  | .approval req => st.raise req
  | .pause => st.pause
  | .resume => st.resume env
  | .cancel _ => st.cancel env

def step (env : RunEnv) (st : ClaudeRun) (input : RunInput) : ClaudeRun :=
  if st.fault.isSome || !st.Admits input then st else st.handle env input

def run (env : RunEnv) (inputs : List RunInput) : ClaudeRun :=
  Machine.run (step env) (fresh env) inputs

end ClaudeRun

end HuginAgent
