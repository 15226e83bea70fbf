/-
The approval bridge and the permission subprocess, `src/src/engine/permission.ts`.

The two halves talk in lines of JSON over a socket.  The subprocess opens a connection for
every tool prompt, writes one request and waits for the decision; the bridge remembers
which connection a request came in on and writes the decision back there.  What either
half reads out of a line is said here, and how the lines get from one to the other in
`Engine.Gate`.

Text on a socket is kept in code units.  A chunk that ends inside a character garbles it,
in what the approver is shown or in the reason of a denial: request ids and decisions are
ASCII, and an allowed input is not read back from the socket.
-/
import HuginAgent.Jobs.World
import HuginAgent.Js.OneLine
import HuginAgent.Js.RoundTrip
import HuginAgent.Kit.Lines

namespace HuginAgent

mutual

/-- `String(v)`; `none` where it throws, at an object whose `toString` is no function. -/
def stringOf : JsValue → Option JsString
  | .undefined => some (js "undefined")
  | .null => some (js "null")
  | .bool true => some (js "true")
  | .bool false => some (js "false")
  | .num n => some n.text
  | .str s => some s
  | .arr items => (stringsOf items).map joinComma
  | .obj fields =>
      if (JsObject.keys fields).contains (js "toString") then none else some (js "[object Object]")

/-- The elements, as `join` takes them. -/
def stringsOf : List JsValue → Option (List JsString)
  | [] => some []
  | .undefined :: rest | .null :: rest => (stringsOf rest).map fun ss => [] :: ss
  | v :: rest => (stringOf v).bind fun s => (stringsOf rest).map fun ss => s :: ss

end

def ApprovalDecision.text : ApprovalDecision → JsString
  | allow => js "allow"
  | deny => js "deny"

/-! ### The lines -/

/-- `JSON.stringify({ t: "req", … })`. -/
def reqLine (id toolName : JsString) (input : JsValue) : JsString :=
  stringifyObject
    [(js "t", .lit "req"), (js "id", .str id), (js "tool_name", .str toolName), (js "input", input)]

/-- `JSON.stringify({ t: "decision", … })`. -/
def decisionLine (id : JsString) (decision : ApprovalDecision) (reason : Option JsString) :
    JsString :=
  stringifyObject
    [(js "t", .lit "decision"), (js "id", .str id), (js "decision", .str decision.text),
      (js "reason", .optional .str reason)]

/-- The request the bridge takes a line for.  The subprocess sends a name that is a string, so
`String` does not throw here. -/
def readReq (line : JsString) : Option ApprovalRequest :=
  match parseObject line with
  | none => none
  | some m =>
      match m.get (js "t"), m.get (js "id") with
      | .str t, .str id =>
          if t = js "req" then
            some
              { requestId := id
                toolName :=
                  (stringOf ((m.get (js "tool_name")).orElse (.lit "unknown"))).getD []
                input := m.get (js "input")
                risk := none }
          else none
      | _, _ => none

/-- What `requestDecision` resolves with. -/
structure Decision where
  decision : JsValue
  reason : JsValue

/-- `DENY_BROKEN`. -/
def denyBroken : Decision :=
  ⟨.lit "deny", .lit "approval channel unavailable (fail-closed)"⟩

/-- The decision a line brings for the request `id`. -/
def readDecision (id line : JsString) : Option Decision :=
  match parseObject line with
  | none => none
  | some m =>
      match m.get (js "t"), m.get (js "id") with
      | .str t, .str i =>
          if t = js "decision" ∧ i = id then some ⟨m.get (js "decision"), m.get (js "reason")⟩
          else none
      | _, _ => none

/-! ### The bridge -/

/-- A connection, by the prompt that opened it. -/
abbrev Socket := Nat

structure ApprovalBridge where
  closed : Bool
  /-- Request id to the connection that raised it. -/
  pending : JsString → Option Socket

namespace ApprovalBridge

def fresh : ApprovalBridge := ⟨false, fun _ => none⟩

/-- `this.pending.set(m.id, sock)`. -/
def raise (b : ApprovalBridge) (id : JsString) (sock : Socket) : ApprovalBridge :=
  { b with pending := Function.update b.pending id (some sock) }

/-- `this.pending.delete(requestId)`. -/
def settle (b : ApprovalBridge) (id : JsString) : ApprovalBridge :=
  { b with pending := Function.update b.pending id none }

/-- The `close` of a connection. -/
def dropSocket (b : ApprovalBridge) (sock : Socket) : ApprovalBridge :=
  { b with pending := fun id => if b.pending id = some sock then none else b.pending id }

def close : ApprovalBridge := ⟨true, fun _ => none⟩

end ApprovalBridge

/-! ### The tool call -/

/-- `req.params.arguments ?? {}`. -/
structure ToolArgs where
  fields : JsObject
  wellFormed : (JsValue.obj fields).wellFormed = true

/-- `String(args.tool_name ?? args.toolName ?? "unknown")`. -/
def ToolArgs.toolName (args : ToolArgs) : Option JsString :=
  stringOf (((args.fields.get (js "tool_name")).orElse (args.fields.get (js "toolName"))).orElse
    (.lit "unknown"))

/-- `args.input ?? {}`. -/
def ToolArgs.input (args : ToolArgs) : JsValue := (args.fields.get (js "input")).orElse (.obj [])

def allowPayload (input : JsValue) : JsObject :=
  [(js "behavior", .lit "allow"), (js "updatedInput", input)]

def denyPayload (message : JsValue) : JsObject :=
  [(js "behavior", .lit "deny"), (js "message", message)]

/-- `d.decision === "allow"`. -/
def Decision.allows (d : Decision) : Bool :=
  match d.decision with
  | .str s => s = js "allow"
  | _ => false

/-- The payload of the answer. -/
def payloadOf (input : JsValue) (d : Decision) : JsObject :=
  if d.allows then allowPayload input
  else denyPayload (d.reason.orElse (.lit "denied by remote approver"))

/-- The payload where the subprocess has been given no socket. -/
def unconfigured : JsObject := denyPayload (.lit "no approval socket configured (fail-closed)")

/-- The text of the answer. -/
def answerText (payload : JsObject) : JsString := stringifyObject payload

/-! ### What is read out of what is written -/

theorem JsValue.orElse_wellFormed {v otherwise : JsValue} (hv : v.wellFormed = true)
    (ho : otherwise.wellFormed = true) : (v.orElse otherwise).wellFormed = true := by
  cases v with
  | undefined => exact ho
  | null => exact ho
  | _ => exact hv

theorem get_wellFormed {o : JsObject} (h : (JsValue.obj o).wellFormed = true) (key : JsString) :
    (o.get key).wellFormed = true := by
  have hall := ((JsValue.wellFormedFields_iff o).mp h).2
  rw [JsObject.get]
  split
  · rename_i p hp
    exact hall p (List.mem_of_find?_eq_some hp)
  · rfl

theorem ToolArgs.input_wellFormed (args : ToolArgs) : args.input.wellFormed = true :=
  JsValue.orElse_wellFormed (get_wellFormed args.wellFormed _) (by decide)

/-- What a line is read as, by its keys. -/
theorem parseObject_line {K : List JsString} {o : JsObject} (hkeys : o.keys = K) (hnodup : K.Nodup)
    (hvalues : ∀ p ∈ o, p.2.wellFormed = true) :
    ∃ m, parseObject (stringifyObject o) = some m ∧ ∀ key, m.get key = (o.get key).onWire := by
  have hkeys : o.keys.Nodup := hkeys ▸ hnodup
  exact ⟨o.onWire, parseObject_stringifyObject o
    ((JsValue.wellFormedFields_iff o).mpr ⟨hkeys, hvalues⟩), o.get_onWire hkeys⟩

/-- **The bridge reads the request the subprocess has written.** -/
theorem readReq_reqLine (id toolName : JsString) {input : JsValue}
    (h : input.wellFormed = true) :
    readReq (reqLine id toolName input) = some ⟨id, toolName, input.onWire, none⟩ := by
  have hvalues : ∀ p ∈ ([(js "t", .lit "req"), (js "id", .str id), (js "tool_name", .str toolName),
      (js "input", input)] : JsObject), p.2.wellFormed = true := by
    simp [h, JsValue.lit, JsValue.wellFormed]
  obtain ⟨m, hm, hget⟩ := parseObject_line (K := [js "t", js "id", js "tool_name", js "input"]) rfl
    (by decide) hvalues
  rw [readReq, reqLine, hm]
  simp only [hget]
  rfl

/-- **The subprocess reads the decision the bridge has written.** -/
theorem readDecision_decisionLine (id : JsString) (decision : ApprovalDecision)
    (reason : Option JsString) :
    readDecision id (decisionLine id decision reason) =
      some ⟨.str decision.text, .optional .str reason⟩ := by
  have hvalues : ∀ p ∈ ([(js "t", .lit "decision"), (js "id", .str id),
      (js "decision", .str decision.text), (js "reason", .optional .str reason)] : JsObject),
      p.2.wellFormed = true := by
    cases reason <;> simp [JsValue.lit, JsValue.wellFormed, JsValue.optional]
  obtain ⟨m, hm, hget⟩ := parseObject_line (K := [js "t", js "id", js "decision", js "reason"]) rfl
    (by decide) hvalues
  rw [readDecision, decisionLine, hm]
  simp only [hget]
  cases reason <;> exact if_pos ⟨rfl, rfl⟩

theorem allows_text (decision : ApprovalDecision) (reason : JsValue) :
    (Decision.mk (.str decision.text) reason).allows = decide (decision = .allow) := by
  cases decision
  · rfl
  · show decide (js "deny" = js "allow") = false
    decide

end HuginAgent
