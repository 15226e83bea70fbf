/-
One connection of the daemon, from the dial to its message pump: `performHandshake` and
`runSession` over a `RelayClient`.

The two functions are one coroutine.  It waits at a few places, and what it waits for is its
stage; when that has come it goes on, but later, in a microtask of its own.  The callback of the
socket runs at any time in between, for any number of frames, and so do the timeout of a
waiter, the close of the socket, the callbacks of the engine runs and `stop`.  What happens is
written down in the order in which it happens.
-/
import HuginAgent.Conn.Client
import HuginAgent.Daemon.Session
import HuginAgent.Jobs.Granted
import HuginAgent.Kit.Machine

namespace HuginAgent

/-- What the daemon brings to a connection: the configuration of its manager, the version it
advertises, and the signed hello for a challenge, unless something throws on the way to it. -/
structure DialConfig where
  env : Env
  protocolVersion : JsString
  signedHello : AuthChallenge → Option JsObject

/-- What the engine does while the manager handles a message. -/
structure Reaction where
  reply : EngineReply
  sync : List Callback

/-- What goes on while the coroutine runs: whether the socket is open, and what the engine does at
each message and each directive. -/
structure Continuation where
  sends : Bool
  reactions : Nat → Reaction
  sync : Nat → List Callback

/-- Where the coroutine is. -/
inductive Stage
  /-- It waits for `client.connect`. -/
  | dialing
  | opened
  /-- It waits for the challenge, as this waiter. -/
  | awaitingChallenge (waiter : Nat)
  | challenged (msg : MessageV2)
  /-- It waits for the answer to its hello. -/
  | awaitingReply (waiter : Nat)
  | replied (msg : MessageV2)
  /-- A waiter was rejected. -/
  | failing
  /-- `performHandshake` has returned. -/
  | shaken (accepted : HelloAccepted)
  | pumping (accepted : HelloAccepted)
  | ended

inductive ConnectionEvent
  /-- A message is delivered. -/
  | arrived (msg : MessageV2)
  | helloSent (hello : JsObject)
  /-- The acceptance has passed `negotiateVersion`, or `acceptEpoch`. -/
  | negotiated (accepted : HelloAccepted)
  | epochAccepted (accepted : HelloAccepted)
  /-- `applyResume` has processed the directives of the acceptance. -/
  | resumed (accepted : HelloAccepted)
  /-- The pump gets a message. -/
  | dispatched (msg : MessageV2)

structure Connection where
  client : RelayClient
  stage : Stage
  running : Bool
  lastEpoch : Int
  world : World
  closed : Bool
  log : List ConnectionEvent

/-- What reaches the daemon. -/
inductive ConnectionAction
  | opened
  | frame (frame : WireFrame) (reaction : Reaction)
  | timeout
  /-- The coroutine goes on. -/
  | proceed (k : Continuation)
  | closed
  /-- An engine callback or a timer reaches the manager. -/
  | internal (act : Action)
  | stop

/-- The handler of the manager that a message goes to. -/
def managerAction (reaction : Reaction) : MessageV2 → Option Action
  | ⟨.jobAssign, msg⟩ => some (.assign msg reaction.reply)
  | ⟨.streamAck, msg⟩ => some (.streamAck msg)
  | ⟨.jobResultAck, msg⟩ => some (.resultAck msg)
  | ⟨.jobCancel, msg⟩ => some (.cancel msg)
  | ⟨.approvalResponse, msg⟩ => some (.approvalResponse msg)
  | ⟨.leaseRevoke, msg⟩ => some (.revoke msg reaction.sync)
  | ⟨.leaseGranted, msg⟩ => some (.leaseGranted msg)
  | _ => none

def isChallenge (m : MessageV2) : Bool := m.type = .authChallenge

def isReply (m : MessageV2) : Bool := m.type = .helloAccepted || m.type = .helloRejected

namespace Connection

/-- `new RelayClient()`, over a manager that has gone through these actions. -/
def start (cfg : DialConfig) (before : List Action) (running : Bool) (lastEpoch : Int) :
    Connection where
  client := .fresh
  stage := .dialing
  running
  lastEpoch
  world := runFrom cfg.env before
  closed := false
  log := []

section

variable (cfg : DialConfig) (c : Connection)

def note (e : ConnectionEvent) : Connection := { c with log := c.log ++ [e] }

/-- The handler that `client.onMessage` registers.  The messages of a session go to other managers,
and the rest is ignored. -/
def dispatch (reaction : Reaction) (msg : MessageV2) : Connection :=
  let c := c.note (.dispatched msg)
  match managerAction reaction msg with
  | some act => { c with world := step cfg.env c.world act }
  | none => c

/-- The handler is given a list of messages. -/
def dispatchAll (k : Continuation) : Connection → List MessageV2 → Connection
  | c, [] => c
  | c, msg :: rest => dispatchAll k (c.dispatch cfg (k.reactions rest.length) msg) rest

/-- The promise of a waiter resolves. -/
def wake (id : Nat) (msg : MessageV2) : Connection :=
  match c.stage with
  | .awaitingChallenge waiter => if id = waiter then { c with stage := .challenged msg } else c
  | .awaitingReply waiter => if id = waiter then { c with stage := .replied msg } else c
  | _ => c

/-- The `message` event of the socket. -/
def onFrame (frame : WireFrame) (reaction : Reaction) : Connection :=
  let (client, delivered) := c.client.onFrame frame
  match delivered with
  | none => { c with client }
  | some (msg, route) =>
      let c := { c with client }.note (.arrived msg)
      match route with
      | .taken w => c.wake w.id msg
      | .handed _ => c.dispatch cfg reaction msg
      | .kept => c

/-- The timer of the waiter that the coroutine waits for. -/
def onTimeout : Connection :=
  match c.stage with
  | .awaitingChallenge waiter | .awaitingReply waiter =>
      { c with client := c.client.expire waiter, stage := .failing }
  | _ => c

/-- The `close` event of the socket: waiters are rejected, and a session that pumps is over. -/
def onClose : Connection :=
  { c with
    client := c.client.onClose
    closed := true
    stage := match c.stage with
      | .awaitingChallenge _ | .awaitingReply _ => .failing
      | .pumping _ => .ended
      | stage => stage }

/-- The start of `performHandshake`. -/
def awaitChallenge : Connection :=
  let (client, w, got) := c.client.waitFor isChallenge
  { c with
    client
    stage := match got with
      | some msg => .challenged msg
      | none => .awaitingChallenge w.id }

/-- The hello is sent, and the client armed. -/
def sendHello (k : Continuation) (challenge : AuthChallenge) : Connection :=
  match cfg.signedHello challenge with
  | none => { c with stage := .ended }
  | some hello =>
      if k.sends then
        let c := c.note (.helloSent hello)
        let (client, w, got) := c.client.armForAccept.waitFor isReply
        { c with
          client
          stage := match got with
            | some msg => .replied msg
            | none => .awaitingReply w.id }
      else { c with stage := .ended }

/-- The end of `performHandshake`. -/
def negotiate (accepted : HelloAccepted) : Connection :=
  if negotiateVersion cfg.protocolVersion [accepted.negotiatedVersion] =
      some accepted.negotiatedVersion then
    { c.note (.negotiated accepted) with
      client := (c.client.setNegotiatedVersion accepted.negotiatedVersion).setAuthed true
      stage := .shaken accepted }
  else { c with stage := .ended }

/-- The directives of an acceptance, with what the engine does at each. -/
def directives (k : Continuation) (accepted : HelloAccepted) : List (ResumeDirective × List Callback) :=
  accepted.resume.zipIdx.map fun d => (d.1, k.sync d.2)

/-- The resume, and then the pump with what was kept for it. -/
def resumeAndPump (k : Continuation) (accepted : HelloAccepted) : Connection :=
  match JobManager.applyResume cfg.env c.world (directives k accepted) with
  | (world, some _) => { c with world, stage := .ended }
  | (world, none) =>
      let c := { c with world }.note (.resumed accepted)
      let (client, kept) := c.client.onMessage 0
      dispatchAll cfg k { c with client, stage := .pumping accepted } kept

/-- `runSession`, once the handshake has returned. -/
def establish (k : Continuation) (accepted : HelloAccepted) : Connection :=
  if accepted.connectionEpoch ≤ c.lastEpoch then { c with stage := .ended }
  else
    let c := { c with lastEpoch := accepted.connectionEpoch }.note (.epochAccepted accepted)
    if c.running then c.resumeAndPump cfg k accepted else { c with stage := .ended }

/-- The coroutine goes on, if what it waits for has come. -/
def proceed (k : Continuation) : Connection :=
  match c.stage with
  | .opened => c.awaitChallenge
  | .challenged ⟨.authChallenge, challenge⟩ => c.sendHello cfg k challenge
  | .challenged _ => { c with stage := .ended }
  | .replied ⟨.helloAccepted, accepted⟩ => c.negotiate cfg accepted
  | .replied _ => { c with stage := .ended }
  | .failing => { c with stage := .ended }
  | .shaken accepted => c.establish cfg k accepted
  | _ => c

def step : ConnectionAction → Connection
  | .opened => match c.stage with
      | .dialing => { c with stage := .opened }
      | _ => c
  | .frame frame reaction => if c.closed then c else c.onFrame cfg frame reaction
  | .timeout => c.onTimeout
  | .proceed k => c.proceed cfg k
  | .closed => c.onClose
  | .internal act =>
      if act.isInternal then { c with world := HuginAgent.step cfg.env c.world act } else c
  | .stop => { c with running := false }

end

end Connection

end HuginAgent
