/-
History entries, `src/sessions/history.ts` and `SessionHistoryEntry` of
`protocol/v1/messages.ts`.

An entry is kept as its properties; `fields` is the object it is sent as.  An optional
property that is missing is `none`, and `JSON.stringify` leaves it out.
-/
import HuginAgent.Js.Size

namespace HuginAgent

inductive HistoryEngine
  | claude
  | codex
deriving DecidableEq

def HistoryEngine.text : HistoryEngine → JsString
  | .claude => js "claude"
  | .codex => js "codex"

inductive HistoryRole
  | user
  | assistant
deriving DecidableEq

def HistoryRole.text : HistoryRole → JsString
  | .user => js "user"
  | .assistant => js "assistant"

inductive OmittedKind
  | image
  | document
  | thinking
  | fallback
  | other
deriving DecidableEq

def OmittedKind.text : OmittedKind → JsString
  | .image => js "image"
  | .document => js "document"
  | .thinking => js "thinking"
  | .fallback => js "fallback"
  | .other => js "other"

inductive ToolStatus
  | ok
  | error
deriving DecidableEq

def ToolStatus.text : ToolStatus → JsString
  | .ok => js "ok"
  | .error => js "error"

structure SessionToolCall where
  id : JsString
  name : JsString
  input : Option JsString := none
  inputTruncated : Option Bool := none
  output : Option JsString := none
  outputTruncated : Option Bool := none
  status : Option ToolStatus := none
deriving DecidableEq

def SessionToolCall.fields (call : SessionToolCall) : JsObject :=
  [(js "id", .str call.id), (js "name", .str call.name),
    (js "input", .optional .str call.input),
    (js "input_truncated", .optional .bool call.inputTruncated),
    (js "output", .optional .str call.output),
    (js "output_truncated", .optional .bool call.outputTruncated),
    (js "status", .optional (fun status => .str status.text) call.status)]

structure OmittedItem where
  kind : OmittedKind
  count : Nat
deriving DecidableEq

def OmittedItem.fields (item : OmittedItem) : JsObject :=
  [(js "kind", .str item.kind.text), (js "count", .ofNat item.count)]

structure SessionHistoryEntry where
  entryId : JsString
  role : HistoryRole
  content : JsString
  contentTruncated : Option Bool := none
  toolCalls : Option (List SessionToolCall) := none
  omitted : Option (List OmittedItem) := none
  createdAt : Option JsString
deriving DecidableEq

def SessionHistoryEntry.fields (entry : SessionHistoryEntry) : JsObject :=
  [(js "entry_id", .str entry.entryId), (js "role", .str entry.role.text),
    (js "content", .str entry.content),
    (js "created_at", (entry.createdAt.map JsValue.str).getD .null),
    (js "content_truncated", .optional .bool entry.contentTruncated),
    (js "omitted", .optional (fun items => .arr (items.map fun item => .obj item.fields))
      entry.omitted),
    (js "tool_calls", .optional (fun calls => .arr (calls.map fun call => .obj call.fields))
      entry.toolCalls)]

/-- `Buffer.byteLength(JSON.stringify(entry), "utf8")`. -/
def historyEntryBytes (entry : SessionHistoryEntry) : Nat := jsonBytes (.obj entry.fields)

end HuginAgent
