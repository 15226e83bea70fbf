/-
The daemon, `src/src/daemon.ts`.

The manager is daemon-level and outlives its connections; a session is one connection,
from the dial over the handshake to its end.  What the manager sends goes to the
connection of the moment, and to nobody while there is none: `safeSend` writes to
`activeClient`, which is set when the handshake is through and cleared when the session
ends.  What `hello` reports was read from the store before the handshake.

Only the connection that is active brings the manager messages.  The runs know nothing
of connections, so a callback or a timer may come between any two steps of a session,
and after its end, and after the daemon has stopped.
-/
import HuginAgent.Conn.Hello
import HuginAgent.Jobs.Sends

namespace HuginAgent

open JobManager

def EventLog.resumeState (s : EventLog) : ResumeState := ⟨s.activeJobsForResume, s.pendingResults⟩

/-- How far `runSession` has got. -/
inductive Session
  | none
  /-- `client.connect` waits. -/
  | dialing
  /-- `performHandshake` waits, with what it reports. -/
  | handshaking (hello : ResumeState)
  /-- `activeClient` is set.  `wire` is what was sent on the connection since. -/
  | active (hello : ResumeState) (wire : List JsObject)
  /-- `stop` has closed the socket: nothing is sent any more. -/
  | closing (wire : List JsObject)

structure Daemon where
  world : World
  running : Bool
  lastEpoch : Int
  session : Session
  storeOpen : Bool

inductive DaemonAction
  /-- The loop of `start` begins a session. -/
  | dial
  | connected
  /-- The handshake resolves with a `hello.accepted`. -/
  | accepted (connectionEpoch : Nat)
  /-- The session ends: the socket is closed, or a step of it throws. -/
  | ended
  /-- Something reaches the manager. -/
  | manager (act : Action)
  | stop
  /-- The loop of `start` is left and the store closed. -/
  | finish
  /-- The process dies and is started again. -/
  | restart

/-- A message of the server, or a directive of it. -/
def Action.isMessage : Action → Bool
  | .callback .. | .timer _ | .tick _ | .restart => false
  | _ => true

/-- An engine callback or a timer. -/
def Action.isInternal : Action → Bool
  | .callback .. | .timer _ | .tick _ => true
  | _ => false

/-- `safeSend`. -/
def Session.deliver (msgs : List JsObject) : Session → Session
  | .active hello wire => .active hello (wire ++ msgs)
  | session => session

/-- Messages come in over a connection whose handshake is through. -/
def Session.pumps : Session → Bool
  | .active .. | .closing _ => true
  | _ => false

namespace Daemon

def start (w : World) : Daemon where
  world := w
  running := true
  lastEpoch := -1
  session := .none
  storeOpen := true

/-- The action reaches the manager. -/
def reaches (d : Daemon) (act : Action) : Bool := act.isInternal || act.isMessage && d.session.pumps

/-- A callback on a closed store.  It throws at its first store operation, and what it has done up
to there stays. -/
def closedCallback (env : Env) (w : World) (r : Ref) : Callback → World
  | .approval req => callback env w r (.approval req)
  | .event ev =>
      if r ∈ w.runs ∧ (w.jobs r).fenced = false then
        { w with draws := w.draws + 1 }.modifyJob r fun s =>
          { s with
            seq := s.seq + 1
            totalBytes := s.totalBytes + byteLength (stringifyObject (eventMsgOf env w r ev)) }
      else w
  | .done outcome =>
      if (r ∈ w.runs ∧ r ∉ w.ended) ∧ (w.jobs r).fenced = false then doneUnfenced w r
      else callback env w r (.done outcome)

/-- What reaches the manager once the store is closed. -/
def closedStep (env : Env) (w : World) : Action → World
  | .callback r cb => closedCallback env w r cb
  | .timer id => onTimer w id
  | .tick ms => { w with now := w.now + ms }
  | _ => w

/-- `acceptEpoch`, and the steps of `runSession` up to the activation. -/
def accept (d : Daemon) (hello : ResumeState) (connectionEpoch : Nat) : Daemon :=
  if connectionEpoch ≤ d.lastEpoch then { d with session := .none }
  else
    { d with
      lastEpoch := connectionEpoch
      session := if d.running then .active hello [] else .none }

def step (env : Env) (d : Daemon) : DaemonAction → Daemon
  | .dial =>
      match d.session with
      | .none => if d.running then { d with session := .dialing } else d
      | _ => d
  | .connected =>
      match d.session with
      | .dialing => { d with session := .handshaking d.world.store.resumeState }
      | _ => d
  | .accepted connectionEpoch =>
      match d.session with
      | .handshaking hello => d.accept hello connectionEpoch
      | _ => d
  | .ended => { d with session := .none }
  | .manager act =>
      if d.reaches act then
        if d.storeOpen then
          { d with
            world := HuginAgent.step env d.world act
            session := d.session.deliver (sentOf env d.world act) }
        else { d with world := closedStep env d.world act }
      else d
  | .stop =>
      match d.session with
      | .active _ wire =>
          let notice := agentDrainingMsg "shutdown" none (env.envelope d.world.draws)
          { d with
            world := { d.world with draws := d.world.draws + 1 }
            running := false
            session := .closing (wire ++ [notice]) }
      | _ => { d with running := false }
  | .finish =>
      match d.session with
      | .none => if d.running then d else { d with storeOpen := false }
      | _ => d
  | .restart => Daemon.start d.world.restart

/-- The daemon after a run. -/
def runFrom (env : Env) (acts : List DaemonAction) : Daemon :=
  Machine.run (step env) (start World.start) acts

/-- Every action of the run meets `P` in the state it comes in. -/
def Along (env : Env) (P : Daemon → DaemonAction → Prop) (acts : List DaemonAction) : Prop :=
  Machine.Along (step env) P (start World.start) acts

end Daemon

end HuginAgent
