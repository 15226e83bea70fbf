/-
The approval gate: manager, bridges and permission subprocesses together.

A prompt is a `tools/call` of the subprocess of a run.  It opens a connection to the bridge
of that run, and everything from there on may come in any order: the text in the one or the
other direction in chunks of any size, an error or the end of the connection on either
side, the end of the bridge, and whatever reaches the manager.  The manager hears of a
request when the bridge reads it, and what it tells a run goes to the run's bridge at once,
as both are in one process.

`close` may come at any time here; the run itself closes its bridge when it finishes.
-/
import HuginAgent.Engine.Permission
import HuginAgent.Jobs.Decisions

namespace HuginAgent

/-- A prompt, with its connection. -/
structure Prompt where
  run : Ref
  /-- `randomUUID()`. -/
  id : JsString
  args : ToolArgs
  connected : Bool
  /-- The bridge has the connection in `sockets`. -/
  live : Bool
  toBridge : Pipe UInt16
  toSubprocess : Pipe UInt16
  answer : Option JsObject

/-- The handler up to `connect`, which it does not get to without a socket path.  Nor does it
where `String` throws, and then there is no answer either. -/
def Prompt.new (r : Ref) (id : JsString) (args : ToolArgs) (configured : Bool) : Prompt where
  run := r
  id
  args
  connected := false
  live := false
  toBridge := .empty
  toSubprocess := .empty
  answer := if configured then none else args.toolName.map fun _ => unconfigured

structure Gate where
  world : World
  bridges : Ref → ApprovalBridge
  prompts : List Prompt

namespace Gate

def start : Gate := ⟨World.start, fun _ => .fresh, []⟩

def modify (g : Gate) (n : Socket) (f : Prompt → Prompt) : Gate :=
  { g with prompts := g.prompts.modify n f }

def setBridge (g : Gate) (r : Ref) (b : ApprovalBridge) : Gate :=
  { g with bridges := Function.update g.bridges r b }

/-! ### The subprocess -/

/-- The `connect` of a connection: the request is written. -/
def connect (g : Gate) (n : Socket) : Gate :=
  match g.prompts[n]? with
  | none => g
  | some p =>
      match p.args.toolName with
      | none => g
      | some name =>
          if p.connected = false ∧ p.answer.isNone ∧ (g.bridges p.run).closed = false ∧
              p.run ∈ g.world.runs then
            g.modify n fun p =>
              { p with
                connected := true
                live := true
                toBridge := p.toBridge.write newline (reqLine p.id name p.args.input) }
          else g

/-- The `data` of a connection, in the subprocess.  Only the first decision counts. -/
def answerArrives (g : Gate) (n : Socket) (units : Nat) : Gate :=
  g.modify n fun p =>
    let read := p.toSubprocess.read newline units
    { p with
      toSubprocess := read.2
      answer := p.answer.or ((read.1.findSome? (readDecision p.id)).map (payloadOf p.args.input)) }

/-- The `error` or the `close` of a connection, in the subprocess. -/
def fail (g : Gate) (n : Socket) : Gate :=
  g.modify n fun p =>
    { p with
      answer := p.answer.or (p.args.toolName.map fun _ => payloadOf p.args.input denyBroken) }

/-! ### The bridge -/

/-- A line comes over a connection. -/
def readLine (env : Env) (n : Socket) (r : Ref) (g : Gate) (line : JsString) : Gate :=
  match readReq line with
  | none => g
  | some req =>
      { g.setBridge r ((g.bridges r).raise req.requestId n) with
        world := step env g.world (.callback r (.approval req)) }

/-- The `data` of a connection, in the bridge. -/
def arrive (env : Env) (g : Gate) (n : Socket) (units : Nat) : Gate :=
  match g.prompts[n]? with
  | none => g
  | some p =>
      if p.live then
        let read := p.toBridge.read newline units
        read.1.foldl (readLine env n p.run) (g.modify n fun p => { p with toBridge := read.2 })
      else g

/-- The `close` of a connection, in the bridge. -/
def hangup (g : Gate) (n : Socket) : Gate :=
  match g.prompts[n]? with
  | none => g
  | some p =>
      (g.setBridge p.run ((g.bridges p.run).dropSocket n)).modify n fun p => { p with live := false }

/-- `resolve(requestId, decision, reason)` of the bridge of a run. -/
def resolve (g : Gate) (r : Ref) (id : JsString) (decision : ApprovalDecision)
    (reason : Option JsString) : Gate :=
  match (g.bridges r).pending id with
  | none => g
  | some n =>
      (g.setBridge r ((g.bridges r).settle id)).modify n fun p =>
        { p with
          toSubprocess := p.toSubprocess.write newline (decisionLine id decision reason) }

/-- `close()` of the bridge of a run. -/
def close (g : Gate) (r : Ref) : Gate :=
  { g.setBridge r .close with
    prompts := g.prompts.map fun p => { p with live := p.live && p.run ≠ r } }

/-! ### The manager -/

/-- What a run is told reaches its bridge. -/
def tell (g : Gate) : Ref × EngineCall → Gate
  | (r, .resolveApproval id decision reason) => g.resolve r id decision reason
  | _ => g

def manage (env : Env) (g : Gate) (act : Action) : Gate :=
  let world := step env g.world act
  (world.calls.drop g.world.calls.length).foldl tell { g with world }

/-- The process goes, and its sockets with it. -/
def die (env : Env) (g : Gate) : Gate where
  world := step env g.world .restart
  bridges r := if r ∈ g.world.runs then .close else g.bridges r
  prompts := g.prompts.map fun p => { p with live := false }

end Gate

inductive GateAction
  /-- `tools/call`, in the subprocess of the run `r`. -/
  | call (r : Ref) (id : JsString) (args : ToolArgs) (configured : Bool)
  | connect (n : Socket)
  | answerArrives (n : Socket) (units : Nat)
  | fail (n : Socket)
  | arrive (n : Socket) (units : Nat)
  | hangup (n : Socket)
  | close (r : Ref)
  /-- Whatever reaches the manager but requests, which come over the sockets. -/
  | manager (act : Action)

def gateStep (env : Env) (g : Gate) : GateAction → Gate
  | .call r id args configured => { g with prompts := g.prompts ++ [.new r id args configured] }
  | .connect n => g.connect n
  | .answerArrives n units => g.answerArrives n units
  | .fail n => g.fail n
  | .arrive n units => g.arrive env n units
  | .hangup n => g.hangup n
  | .close r => g.close r
  | .manager (.callback _ (.approval _)) => g
  | .manager .restart => g.die env
  | .manager act => g.manage env act

/-- The state of the gate after a run. -/
def runGate (env : Env) (acts : List GateAction) : Gate := Machine.run (gateStep env) Gate.start acts

/-- The request ids of a run. -/
def promptIds (acts : List GateAction) : List JsString :=
  acts.filterMap fun
    | .call _ id _ _ => some id
    | _ => none

theorem runGate_snoc (env : Env) (acts : List GateAction) (act : GateAction) :
    runGate env (acts ++ [act]) = gateStep env (runGate env acts) act :=
  Machine.run_append (gateStep env) Gate.start acts [act]

/-! ### The ids of a run -/

namespace Gate

def ids (g : Gate) : List JsString := g.prompts.map Prompt.id

theorem ids_map (prompts : List Prompt) {f : Prompt → Prompt} (hf : ∀ p, (f p).id = p.id) :
    (prompts.map f).map Prompt.id = prompts.map Prompt.id := by
  rw [List.map_map]
  exact List.map_congr_left fun p _ => hf p

theorem ids_modify (g : Gate) (n : Socket) {f : Prompt → Prompt} (hf : ∀ p, (f p).id = p.id) :
    (g.modify n f).ids = g.ids := by
  refine List.ext_getElem? ?_
  intro m
  rw [ids, ids, List.getElem?_map, List.getElem?_map, modify, List.getElem?_modify]
  cases g.prompts[m]? with
  | none => rfl
  | some p =>
      simp only [Option.map_eq_map, Option.map_some]
      split
      · exact congrArg some (hf p)
      · rfl

theorem ids_connect (g : Gate) (n : Socket) : (g.connect n).ids = g.ids := by
  rw [connect]
  repeat' split
  all_goals first | rfl | exact ids_modify _ _ fun _ => by rfl

theorem ids_hangup (g : Gate) (n : Socket) : (g.hangup n).ids = g.ids := by
  rw [hangup]
  split
  · rfl
  · exact ids_modify _ _ fun _ => by rfl

theorem ids_readLines (env : Env) (n : Socket) (r : Ref) (lines : List JsString) (g : Gate) :
    (lines.foldl (readLine env n r) g).ids = g.ids := by
  induction lines generalizing g with
  | nil => rfl
  | cons line rest ih =>
      rw [List.foldl_cons, ih, readLine]
      split <;> rfl

theorem ids_arrive (env : Env) (g : Gate) (n : Socket) (units : Nat) :
    (g.arrive env n units).ids = g.ids := by
  rw [arrive]
  repeat' split
  · rfl
  · rw [ids_readLines]
    exact ids_modify _ _ fun _ => by rfl
  · rfl

theorem ids_tell (g : Gate) (call : Ref × EngineCall) : (g.tell call).ids = g.ids := by
  obtain ⟨r, call⟩ := call
  cases call with
  | resolveApproval id decision reason =>
      rw [tell, resolve]
      split
      · rfl
      · exact ids_modify _ _ fun _ => by rfl
  | _ => rfl

theorem ids_manage (env : Env) (g : Gate) (act : Action) : (g.manage env act).ids = g.ids := by
  have htell : ∀ (calls : List (Ref × EngineCall)) (g : Gate), (calls.foldl tell g).ids = g.ids := by
    intro calls
    induction calls with
    | nil => intro g; rfl
    | cons c rest ih =>
        intro g
        rw [List.foldl_cons, ih, ids_tell]
  exact htell _ _

end Gate

/-- A call brings an id, and nothing else does. -/
theorem ids_step (env : Env) (g : Gate) (act : GateAction) :
    (gateStep env g act).ids = g.ids ++ promptIds [act] := by
  cases act with
  | call r id args configured => exact List.map_append
  | connect n => exact (g.ids_connect n).trans (List.append_nil _).symm
  | answerArrives n units =>
      exact (g.ids_modify n fun _ => by rfl).trans (List.append_nil _).symm
  | fail n => exact (g.ids_modify n fun _ => by rfl).trans (List.append_nil _).symm
  | arrive n units => exact (g.ids_arrive env n units).trans (List.append_nil _).symm
  | hangup n => exact (g.ids_hangup n).trans (List.append_nil _).symm
  | close r => exact (Gate.ids_map _ fun _ => by rfl).trans (List.append_nil _).symm
  | manager act =>
      refine Eq.trans ?_ (List.append_nil _).symm
      cases act with
      | callback r cb =>
          cases cb with
          | approval req => rfl
          | event ev => exact g.ids_manage env _
          | done outcome => exact g.ids_manage env _
      | restart => exact Gate.ids_map _ fun _ => by rfl
      | _ => exact g.ids_manage env _

theorem ids_runGate (env : Env) (acts : List GateAction) :
    (runGate env acts).ids = promptIds acts := by
  induction acts using List.reverseRecOn with
  | nil => rfl
  | append_singleton acts act ih =>
      rw [runGate_snoc, ids_step, ih, promptIds, promptIds, promptIds, List.filterMap_append]

end HuginAgent
