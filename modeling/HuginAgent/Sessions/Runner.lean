/-
The runners of resumed sessions, `ClaudeResumeRunner` and `CodexResumeRunner` of
`src/src/sessions/resume.ts`.

Both are one machine with a reader of its own for the lines, and it is driven like the one of
`Engine.Claude`: the start, the child, the timer of a cancel and the calls of whoever holds the
run.  Three things differ.  What comes in a pause is kept as events.  The close is only noted
while the run is paused, and the run then ends when it is resumed.  And a cancel without a child
ends the run in a job of its own.

What the two functions check of the turn before the run is in `Engine.Argv`.
-/
import HuginAgent.Engine.Claude
import HuginAgent.Sessions.ResumeManager

namespace HuginAgent

/-! ### Lines -/

/-- The events of a line of Codex; `none` where reading it throws. -/
def codexLineEvents (number : Decimal → JsNumber) (line : JsString) : Option (List JsObject) :=
  if trim line = [] then some []
  else
    match parse (trim line) with
    | none => some []
    | some parsed => normalizeCodexLine (parsed.loaded number)

/-- A part of a message, if it is text. -/
def messagePartText (part : JsValue) : Option JsString :=
  if (part.member "type").isLit "text" then stringFromUnknown (part.member "text") else none

def assistantText : JsValue → JsString
  | .str content => content
  | .arr content => (content.filterMap messagePartText).flatten
  | _ => []

/-! ### The state -/

/-- What does not change in a run. -/
structure RunnerEnv where
  engine : HistoryEngine
  number : Decimal → JsNumber
  /-- Does the holder pause in the callback of its nth event? -/
  pauses : Nat → Bool
  /-- What there is to read in `outputFile` at the end. -/
  outputFile : Option JsString
  scratchGoes : Bool

structure ResumeRun where
  started : Bool
  finished : Bool
  cancelled : Bool
  paused : Bool
  /-- `scratchDir` is there. -/
  scratch : Bool
  child : Option ChildProcess
  stdoutBuf : JsString
  stderrTail : JsString
  finalAssistantText : JsString
  finalResultText : Option JsString
  newSessionId : Option JsString
  killTimer : Option Nat
  timers : Timers RunTimer
  closeOutcome : Option EngineOutcome
  pendingEvents : List (EventSource × JsObject)
  /-- The job of a cancel waits. -/
  ending : Bool
  fault : Option RunFault
  result : Option ResumeDone
  log : List RunEffect

namespace ResumeRun

open ClaudeRun (SpawnResult)

def fresh (env : RunnerEnv) : ResumeRun where
  started := false
  finished := false
  cancelled := false
  paused := false
  scratch := env.engine = .codex
  child := none
  stdoutBuf := []
  stderrTail := []
  finalAssistantText := []
  finalResultText := none
  newSessionId := none
  killTimer := none
  timers := .empty
  closeOutcome := none
  pendingEvents := []
  ending := false
  fault := none
  result := none
  log := []

/-! ### Events -/

def note (st : ResumeRun) (e : RunEffect) : ResumeRun := { st with log := st.log ++ [e] }

def pause (st : ResumeRun) : ResumeRun :=
  if st.finished || st.paused then st.note .paused else { st.note .paused with paused := true }

/-- The callbacks are called. -/
def tell (env : RunnerEnv) (st : ResumeRun) (ev : EventSource × JsObject) : ResumeRun :=
  if env.pauses (eventCount st.log) then (st.note (.event ev.1 ev.2)).pause
  else st.note (.event ev.1 ev.2)

def emit (env : RunnerEnv) (source : EventSource) (st : ResumeRun) (ev : JsObject) : ResumeRun :=
  if st.paused then { st with pendingEvents := st.pendingEvents ++ [(source, ev)] }
  else st.tell env (source, ev)

def flushEvents (env : RunnerEnv) : List (EventSource × JsObject) → ResumeRun → ResumeRun
  | [], st => { st with pendingEvents := [] }
  | ev :: rest, st =>
      if st.paused then { st with pendingEvents := ev :: rest }
      else flushEvents env rest (st.tell env ev)

def flushPendingEvents (env : RunnerEnv) (st : ResumeRun) : ResumeRun :=
  flushEvents env st.pendingEvents st

/-! ### The output -/

/-- What Claude says of the session and of its answer. -/
def observeLine (st : ResumeRun) (line : JsValue) : ResumeRun :=
  match line with
  | .obj _ =>
      let text := assistantText ((line.member "message").member "content")
      { st with
        newSessionId :=
          (nonEmpty (stringFromUnknown (line.member "session_id"))).or st.newSessionId
        finalResultText :=
          if (line.member "type").isLit "result" then
            (stringFromUnknown (line.member "result")).or st.finalResultText
          else st.finalResultText
        finalAssistantText :=
          if (line.member "type").isLit "assistant" && text ≠ [] then text
          else st.finalAssistantText }
  | _ => st

/-- An event of Codex, before it is emitted. -/
def observeEvent (st : ResumeRun) (ev : JsObject) : ResumeRun :=
  match ev.get (js "kind"), nonEmpty (stringFromUnknown (ev.get (js "text"))) with
  | .str kind, some text =>
      if kind = js "assistant_text" then { st with finalAssistantText := text } else st
  | _, _ => st

def parseAndEmit (env : RunnerEnv) (st : ResumeRun) (line : JsString) : ResumeRun :=
  if trim line = [] then st
  else
    match parse (trim line) with
    | none => st
    | some parsed =>
        match env.engine with
        | .claude =>
            match normalizeClaudeLine (parsed.loaded env.number) with
            | none => { st.observeLine (parsed.loaded env.number) with fault := some .callback }
            | some events =>
                events.foldl (emit env .stdout) (st.observeLine (parsed.loaded env.number))
        | .codex =>
            match normalizeCodexLine (parsed.loaded env.number) with
            | none => { st with fault := some .callback }
            | some events =>
                events.foldl (fun st ev => (st.observeEvent ev).emit env .stdout ev) st

/-- The lines that are complete, one after the other, up to one that throws. -/
def drainLines (env : RunnerEnv) : List JsString → JsString → ResumeRun → ResumeRun
  | [], rest, st => { st with stdoutBuf := rest }
  | line :: lines, rest, st =>
      if (st.parseAndEmit env line).fault.isSome then
        { st.parseAndEmit env line with stdoutBuf := joinLines newline lines rest }
      else drainLines env lines rest (st.parseAndEmit env line)

/-- What nothing ends, where it is flushed. -/
def flushTail (env : RunnerEnv) (st : ResumeRun) : ResumeRun :=
  if trim st.stdoutBuf = [] then st
  else { st with stdoutBuf := [] }.parseAndEmit env st.stdoutBuf

def drain (env : RunnerEnv) (flush : Bool) (st : ResumeRun) : ResumeRun :=
  let drained :=
    drainLines env (splitLines newline st.stdoutBuf).1 (splitLines newline st.stdoutBuf).2 st
  if drained.fault.isNone && flush then drained.flushTail env else drained

/-! ### The end -/

/-- `finalAssistantText || stderrTail`. -/
def fallbackText (st : ResumeRun) : JsString :=
  if st.finalAssistantText = [] then st.stderrTail else st.finalAssistantText

def finalMessage (env : RunnerEnv) (st : ResumeRun) : JsString :=
  match env.engine with
  | .claude => st.finalResultText.getD st.fallbackText
  | .codex => (nonEmpty (env.outputFile.map trim)).getD st.fallbackText

def finish (env : RunnerEnv) (st : ResumeRun) (outcome : EngineOutcome) : ResumeRun :=
  if st.finished then st
  else
    { st.note (.done outcome) with
      finished := true
      timers := st.timers.clear st.killTimer
      scratch := st.scratch && !env.scratchGoes
      result := some ⟨outcome, st.finalMessage env, st.newSessionId⟩ }

def maybeFinishClosed (env : RunnerEnv) (st : ResumeRun) : ResumeRun :=
  match st.closeOutcome with
  | none => st
  | some outcome =>
      if st.cancelled then st.finish env outcome
      else if st.paused then st
      else if (st.drain env true).fault.isSome then st.drain env true
      else (st.drain env true).finish env outcome

def killGroup (st : ResumeRun) (sig : RunSignal) : ResumeRun :=
  if (st.child.bind ChildProcess.pid).isSome then st.note (.signal sig) else st

/-! ### What comes -/

/-- The deferred start. -/
def start (env : RunnerEnv) (st : ResumeRun) (spawned : SpawnResult) : ResumeRun :=
  if st.finished then { st with started := true }
  else if st.cancelled then { st with started := true }.finish env .cancelled
  else
    match spawned with
    | .throws => { st with started := true, fault := some .start }
    | .child pid => { st with started := true, child := some ⟨pid⟩ }

def stdoutData (env : RunnerEnv) (st : ResumeRun) (chunk : List UInt8) : ResumeRun :=
  if st.paused then { st with stdoutBuf := st.stdoutBuf ++ utf8Decode chunk }
  else { st with stdoutBuf := st.stdoutBuf ++ utf8Decode chunk }.drain env false

def stderrTailUnits : Nat := 8192

def stderrData (env : RunnerEnv) (st : ResumeRun) (chunk : List UInt8) : ResumeRun :=
  let tail := st.stderrTail ++ utf8Decode chunk
  { st with stderrTail := tail.drop (tail.length - stderrTailUnits) }.emit env .stderr
    (stderrChunk (utf8Decode chunk))

def childError (env : RunnerEnv) (st : ResumeRun) (error : JsString) : ResumeRun :=
  (st.emit env .engine (engineError error)).finish env (.error none (some (js "spawn_failed")))

def close (env : RunnerEnv) (st : ResumeRun) (code : Option JsNumber) (signalled : Bool) :
    ResumeRun :=
  let outcome := ClaudeRun.closeOutcome st.cancelled signalled code
  { st with closeOutcome := some outcome }.maybeFinishClosed env

def fire (st : ResumeRun) (n : Nat) : ResumeRun :=
  match st.timers.find n with
  | none => st
  | some _ => { st with timers := st.timers.clear (some n) }.killGroup .kill

/-- What comes after the events that waited. -/
def resumeOutput (env : RunnerEnv) (st : ResumeRun) : ResumeRun :=
  if st.paused then st
  else
    let drained := st.drain env st.closeOutcome.isSome
    if drained.fault.isSome || drained.paused then drained else drained.maybeFinishClosed env

def resume (env : RunnerEnv) (st : ResumeRun) : ResumeRun :=
  if st.finished || !st.paused then st.note .resumed
  else ({ st.note .resumed with paused := false }.flushPendingEvents env).resumeOutput env

def setKillTimer (st : ResumeRun) : ResumeRun :=
  { st with killTimer := some st.timers.next, timers := st.timers.set .kill }

def cancel (st : ResumeRun) : ResumeRun :=
  if st.finished then st
  else if (st.child.bind ChildProcess.pid).isNone then { st with cancelled := true, ending := true }
  else ({ st with cancelled := true }.killGroup .term).setKillTimer

/-- The job of a cancel without a child. -/
def endCancelled (env : RunnerEnv) (st : ResumeRun) : ResumeRun :=
  { st with ending := false }.finish env .cancelled

end ResumeRun

/-! ### Steps -/

inductive RunnerInput
  | start (spawned : ClaudeRun.SpawnResult)
  | stdout (chunk : List UInt8)
  | stderr (chunk : List UInt8)
  | childError (error : JsString)
  | close (code : Option JsNumber) (signalled : Bool)
  | timer (n : Nat)
  /-- The job of a cancel. -/
  | ending
  | pause
  | resume
  | cancel (graceMs : JsNumber)

namespace ResumeRun

/-- Does the input come in this state? -/
def Admits (st : ResumeRun) : RunnerInput → Bool
  | .start _ => !st.started
  | .stdout _ | .stderr _ | .childError _ | .close _ _ => st.child.isSome
  | .ending => st.ending
  | _ => true

def handle (env : RunnerEnv) (st : ResumeRun) : RunnerInput → ResumeRun
  | .start spawned => st.start env spawned
  | .stdout chunk => st.stdoutData env chunk
  | .stderr chunk => st.stderrData env chunk
  | .childError error => st.childError env error
  | .close code signalled => st.close env code signalled
  | .timer n => st.fire n
  | .ending => st.endCancelled env
  | .pause => st.pause
  | .resume => st.resume env
  | .cancel _ => st.cancel

def step (env : RunnerEnv) (st : ResumeRun) (input : RunnerInput) : ResumeRun :=
  if st.fault.isSome || !st.Admits input then st else st.handle env input

def run (env : RunnerEnv) (inputs : List RunnerInput) : ResumeRun :=
  Machine.run (step env) (fresh env) inputs

end ResumeRun

end HuginAgent
