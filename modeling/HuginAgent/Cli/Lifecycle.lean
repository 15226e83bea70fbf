/-
`start`, `stop`, `status` and `restart`, `src/cli.ts`.

Each is a program of the calls on the pidfile.  The loops of the source end by the clock; here the
number of their turns is bounded as well, by a number that is part of the options and is any.  A
`finally` is written where what it does is known: before there is a child, after it, and after the
record.
-/
import HuginAgent.Cli.Pidfile
import HuginAgent.Kit.Machine

namespace HuginAgent

namespace Cli

/-- What a command reads of its environment and its arguments, and the bound on the turns of its
loops.  `command` is the command line of the daemon; reading its arguments may throw. -/
structure Options where
  logfile : JsString
  command : Except Failure JsString
  marker : JsString
  readyTimeoutMs : Nat
  readyStableMs : Nat
  force : Bool
  stopTimeoutMs : Nat
  polls : Nat

/-! ### Waiting for a daemon -/

def startFailureMessage (opts : Options) (detail : JsString) : Script JsString := do
  let tail ← orAbsent (ask .logTail)
  let tail := tail.getD []
  pure (detail ++ js "; logs: " ++ opts.logfile ++ if tail = [] then [] else unit '\n' :: tail)

def logContainsMarkerSince (marker : JsString) (offset : Nat) : Script Bool :=
  if marker = [] then pure true else do
    let found ← orAbsent (ask (.logHas marker offset))
    pure (found.getD false)

def childExitDetail : Option ChildExit → JsString
  | some exit =>
      js "failed to start hugind; child exited immediately/before readiness (code " ++
        (exit.code.map digitUnits).getD (js "null") ++ js ", signal " ++
        exit.signal.getD (js "null") ++ js ")"
  | none => js "failed to start hugind; child did not remain alive"

def cleanupStartedPidfile (pid : Pid) : Script Unit := do
  let _ ← removePidfileIfHoldsPid pid
  pure ()

def killStartedChild (pid : Pid) : Script Unit := do
  if ← isPidAlive pid then ask (.kill pid) else pure ()

/-- `childState.exit === undefined && isPidAlive(pid)`. -/
def childRuns (pid : Pid) (exit : Option ChildExit) : Script Bool :=
  if exit.isSome then pure false else isPidAlive pid

/-- What a start does whose daemon has ended or has lost the pidfile. -/
def startFailed (opts : Options) (pid : Pid) (exit : Option ChildExit) : Script LifecycleResult := do
  killStartedChild pid
  let message ← startFailureMessage opts (childExitDetail exit)
  pure ⟨1, message⟩

/-- The test that every turn of the waiting begins with, and the result that the start fails with. -/
def checkChild (opts : Options) (pid : Pid) : Script (Option LifecycleResult) := do
  let stillOwnsPidfile ← pidfileHoldsPid pid
  let exit ← ask (.childExit pid)
  let alive ← childRuns pid exit
  match alive, stillOwnsPidfile with
  | true, true => pure none
  | false, true => do
      cleanupStartedPidfile pid
      let failed ← startFailed opts pid exit
      pure (some failed)
  | _, false => do
      let failed ← startFailed opts pid exit
      pure (some failed)

/-- `while (Date.now() < stableDeadline) …`. -/
def waitForStability (opts : Options) (pid : Pid) (stableDeadline : Nat) :
    Nat → Script (Option LifecycleResult)
  | 0 => pure none
  | polls + 1 => do
      let now ← ask .now
      if stableDeadline ≤ now then pure none
      else
        match ← checkChild opts pid with
        | some failed => pure (some failed)
        | none => waitForStability opts pid stableDeadline polls

def started (opts : Options) (pid : Pid) : LifecycleResult :=
  ⟨0, js "hugind started (pid " ++ digitUnits pid ++ js ") — logs: " ++ opts.logfile⟩

def notYetConfirmed (opts : Options) (pid : Pid) : LifecycleResult :=
  ⟨0, js "hugind started (pid " ++ digitUnits pid ++
    js ") — not yet confirmed healthy; check logs: " ++ opts.logfile⟩

/-- After the last turn of the loop. -/
def readinessEnd (opts : Options) (pid : Pid) : Script LifecycleResult := do
  let failed ← checkChild opts pid
  pure (failed.getD (notYetConfirmed opts pid))

/-- Once the log has the marker. -/
def awaitStability (opts : Options) (pid : Pid) : Script LifecycleResult := do
  let now ← ask .now
  match ← waitForStability opts pid (now + opts.readyStableMs) opts.polls with
  | some failed => pure failed
  | none => do
      let failed ← checkChild opts pid
      pure (failed.getD (started opts pid))

/-- `while (true) …`. -/
def readinessLoop (opts : Options) (pid : Pid) (logOffset deadline : Nat) :
    Nat → Script LifecycleResult
  | 0 => readinessEnd opts pid
  | polls + 1 => do
      match ← checkChild opts pid with
      | some failed => pure failed
      | none => do
          let ready ← logContainsMarkerSince opts.marker logOffset
          if ready then awaitStability opts pid
          else do
            let now ← ask .now
            if deadline ≤ now then readinessEnd opts pid
            else readinessLoop opts pid logOffset deadline polls

def waitForDaemonReadiness (opts : Options) (pid : Pid) (logOffset : Nat) :
    Script LifecycleResult := do
  let now ← ask .now
  readinessLoop opts pid logOffset (now + opts.readyTimeoutMs) opts.polls

/-! ### Starting -/

def ownershipSuffix (inspection : Inspection) : JsString :=
  if inspection.legacy || inspection.ownership = some .unknown then js ", ownership unverified"
  else []

/-- What follows on an `openSync` or a `writeFileSync` that threw `e`, in the turn `attempt`; `next`
is the next turn.  No result is a claim. -/
def claimRefused (attempt : Nat) (next : Script (Option LifecycleResult)) (e : Failure) :
    Script (Option LifecycleResult) :=
  if e ≠ .eexist then throw e
  else do
    let inspection ← inspectPidfile
    match inspection.state, inspection.record with
    | .running, some record =>
        pure (some ⟨1, js "already running (pid " ++ digitUnits record.pid ++
          ownershipSuffix inspection.toInspection ++ js ")"⟩)
    | .starting, _ => pure (some ⟨1, js "already running / start in progress; try again"⟩)
    | state, _ =>
        if attempt = 0 ∧ (state = .stale ∨ state = .none) then do
          let _ ← removePidfileIfUnchanged inspection.snapshot
          next
        else pure (some ⟨1, js "already running / try again"⟩)

/-- `writeClaimFd`. -/
def writeClaimFd (me : Pid) (fd : Nat) : Script Unit := do
  let now ← ask .now
  ask (.writeClaim fd ⟨now, some me⟩)

/-- One turn of the loop of `claimPidfile`. -/
def claimAttempt (me : Pid) (attempt : Nat) (next : Script (Option LifecycleResult)) :
    Script (Option LifecycleResult) :=
  (ask .openExclusive).andThen fun
    | .error e => claimRefused attempt next e
    | .ok fd =>
        (writeClaimFd me fd).andThen fun
          | .ok () => pure none
          | .error e => do
              removePidfile
              claimRefused attempt next e

def claimPidfile (me : Pid) : Script (Option LifecycleResult) :=
  claimAttempt me 0 (claimAttempt me 1 (pure (some ⟨1, js "already running / try again"⟩)))

def writeRecordAtomic (record : PidRecord) : Script Unit :=
  tryCatch (do ask (.writeTmp record); ask .renameTmp) fun e => do
    ask .removeTmp
    throw e

/-- From the log file to the child: the size of the log before it, the command line and its pid. -/
def spawnDaemon (opts : Options) : Script (Nat × JsString × Option Pid) := do
  ask .openLog
  let logOffset ← orAbsent (ask .logSize)
  match opts.command with
  | .error e => throw e
  | .ok cmdLine => do
      let child ← ask (.spawn cmdLine)
      pure (logOffset.getD 0, cmdLine, child)

/-- `finally { if (claimActive) removePidfile(…) }`, for what throws while there is no child. -/
def givingBack {α : Type} (p : Script α) : Script α :=
  tryCatch p fun e => do
    removePidfile
    throw e

/-- `child.pid === undefined`. -/
def spawnFailed (opts : Options) : Script LifecycleResult := do
  givingBack removePidfile
  let spawnError ← ask .spawnError
  let reason := match spawnError with
    | some message => js "failed to start hugind: " ++ message
    | none => js "failed to start hugind"
  let message ← startFailureMessage opts reason
  pure ⟨1, message⟩

/-- The record of the child; where it cannot be written, the child is killed and the file given
back. -/
def recordChild (child : Pid) (cmdLine : JsString) : Script Unit :=
  tryCatch (do
      let _ ← ask .now
      writeRecordAtomic ⟨child, cmdLine⟩) fun e => do
    killStartedChild child
    removePidfile
    throw e

def startDaemon (me : Pid) (opts : Options) : Script LifecycleResult := do
  match ← claimPidfile me with
  | some result => pure result
  | none =>
      let (logOffset, cmdLine, child) ← givingBack (spawnDaemon opts)
      match child with
      | none => spawnFailed opts
      | some child => do
          recordChild child cmdLine
          waitForDaemonReadiness opts child logOffset

/-! ### Stopping, and the status -/

/-- `while (Date.now() < deadline) …`, and the last look. -/
def waitForExitLoop (pid : Pid) (deadline : Nat) : Nat → Script Bool
  | 0 => do
      let alive ← isPidAlive pid
      pure !alive
  | polls + 1 => do
      let now ← ask .now
      let alive ← isPidAlive pid
      if deadline ≤ now then pure !alive
      else if alive then waitForExitLoop pid deadline polls
      else pure true

def waitForExit (opts : Options) (pid : Pid) (timeoutMs : Nat) : Script Bool := do
  let now ← ask .now
  waitForExitLoop pid (now + timeoutMs) opts.polls

/-- After a `waitForExit` that was successful. -/
def stopped (pid : Pid) (unverified : Bool) : Script LifecycleResult := do
  let _ ← removePidfileIfHoldsPid pid
  let suffix := if unverified then js "; ownership could not be re-verified" else []
  pure ⟨0, js "stopped (pid " ++ digitUnits pid ++ suffix ++ js ")"⟩

def didNotStop (pid : Pid) : LifecycleResult :=
  ⟨1, js "pid " ++ digitUnits pid ++
    js " did not stop within 5s; retry with --force to terminate it"⟩

/-- The decision `kill`. -/
def stopRunning (opts : Options) (pid : Pid) (unverified : Bool) : Script LifecycleResult := do
  ask (.kill pid)
  if ← waitForExit opts pid opts.stopTimeoutMs then stopped pid unverified
  else if opts.force then do
    ask (.kill pid)
    if ← waitForExit opts pid 2000 then stopped pid unverified
    else pure (didNotStop pid)
  else pure (didNotStop pid)

def stopDaemon (opts : Options) : Script LifecycleResult := do
  let inspection ← inspectPidfile
  match stopDecision inspection.toInspection opts.force, inspection.record with
  | .notRunning, _ => pure ⟨1, js "not running"⟩
  | .starting, _ => pure ⟨1, js "a start is in progress; retry"⟩
  | .stale, some record => do
      let _ ← removePidfileIfHoldsPid record.pid
      pure ⟨1, js "not running (stale pidfile removed)"⟩
  | _, none => do
      let _ ← removePidfileIfUnchanged inspection.snapshot
      pure ⟨1, js "not running (stale pidfile removed)"⟩
  | .refuseUnverified, some record =>
      pure ⟨1, js "cannot verify this pidfile belongs to hugind; rerun with --force to terminate pid " ++
        digitUnits record.pid ++ js ", or remove the stale pidfile"⟩
  | .kill, some record =>
      stopRunning opts record.pid
        (inspection.legacy || inspection.ownership = some .unknown)

def statusDaemon (opts : Options) : Script LifecycleResult := do
  let inspection ← inspectPidfile
  match inspection.state, inspection.record with
  | .starting, _ => pure ⟨1, js "starting (in progress)"⟩
  | .running, some record =>
      pure ⟨0, js "running (pid " ++ digitUnits record.pid ++
        ownershipSuffix inspection.toInspection ++ js ", logs: " ++ opts.logfile ++ js ")"⟩
  | .stale, _ => do
      let _ ← removePidfileIfUnchanged inspection.snapshot
      pure ⟨1, js "stopped"⟩
  | _, _ => pure ⟨1, js "stopped"⟩

/-- `restart`, as `runCli` has it. -/
def restartDaemon (me : Pid) (opts : Options) : Script LifecycleResult := do
  let result ← stopDaemon opts
  if result.code ≠ 0 ∧ !(js "not running").isPrefixOf result.message then pure result
  else startDaemon me opts

/-! ### Many processes -/

inductive Command
  | start (opts : Options)
  | stop (opts : Options)
  | status (opts : Options)
  | restart (opts : Options)

def Command.script (me : Pid) : Command → Script LifecycleResult
  | start opts => startDaemon me opts
  | stop opts => stopDaemon opts
  | status opts => statusDaemon opts
  | restart opts => restartDaemon me opts

/-- The world, and what each process still has to do. -/
structure System where
  world : World
  procs : Pid → Option (Script LifecycleResult)

/-- A process begins, makes its next call, or is gone; the clock is set. -/
inductive SystemAction
  | launch (pid : Pid) (command : Command)
  | call (pid : Pid) (chance : Chance)
  | die (pid : Pid)
  | tick (clock : Nat)

namespace World

/-- A new process, of a pid that was never given out. -/
def born (w : World) (pid : Pid) : World :=
  { w with used := Function.update w.used pid true, alive := Function.update w.alive pid true }

def gone (w : World) (pid : Pid) : World :=
  { w with
    alive := Function.update w.alive pid false
    standing := Function.update w.standing pid (w.standing pid).release }

end World

namespace System

/-- Has the process nothing left to do? -/
def finished (s : System) (pid : Pid) : Bool := (s.procs pid).all Prog.isDone

/-- One step.  What cannot happen changes nothing: a pid given out twice, the call of a process that
has none left, and the end of a start between its claim and its record. -/
def step (s : System) : SystemAction → System
  | .launch pid command =>
      if s.world.used pid = true ∨ pid = 0 then s
      else ⟨s.world.born pid, Function.update s.procs pid (some (command.script pid))⟩
  | .call pid chance =>
      match s.procs pid with
      | some (.call c rest) =>
          match s.world.perform pid c chance with
          | some (r, w) => ⟨w, Function.update s.procs pid (some (rest r))⟩
          | none => s
      | _ => s
  | .die pid =>
      if (s.world.standing pid).isClaiming && !s.finished pid then s
      else ⟨s.world.gone pid, Function.update s.procs pid none⟩
  | .tick clock => { s with world := { s.world with clock } }

end System

end Cli

end HuginAgent
