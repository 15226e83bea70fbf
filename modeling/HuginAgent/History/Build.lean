/-
The history of a session file, `buildHistoryEntries` of `src/sessions/history.ts`.

Claude writes turns, with the calls of tools inside the assistant's ones and their results in
later turns of the user.  Codex writes messages, calls, outputs and events as records of
their own: calls are gathered under the assistant's message before them, and where there is
none an entry is made for them.  Both builders read the whole file before they make an entry,
since a result comes after its call.
-/
import HuginAgent.History.Page
import HuginAgent.History.Records

namespace HuginAgent

/-! ### Text -/

structure TextExtraction where
  content : JsString
  contentTruncated : Option Bool := none
  omitted : Option (List OmittedItem) := none

def omittedOrder : List OmittedKind := [.image, .document, .thinking, .fallback, .other]

def capContent (value : JsString) : TextExtraction :=
  let capped := capString value historyContentCap
  { content := capped.1, contentTruncated := if capped.2 then some true else none }

def omittedKind (type : Option JsString) : OmittedKind :=
  if type = some (js "image") ∨ type = some (js "input_image") ∨ type = some (js "image_url") then
    .image
  else if type = some (js "document") ∨ type = some (js "input_file") ∨ type = some (js "file") then
    .document
  else if type = some (js "thinking") ∨ type = some (js "reasoning") then .thinking
  else if type = some (js "fallback") then .fallback
  else .other

def omittedList (counts : OmittedKind → Nat) : List OmittedItem :=
  omittedOrder.flatMap fun kind => if 0 < counts kind then [⟨kind, counts kind⟩] else []

/-- Text from blocks: those of some types hold it, some are not looked at, the others count as
omitted. -/
def extractText (isText isSkipped : Option JsString → Bool) (content : JsValue) : TextExtraction :=
  match content with
  | .str s => capContent (trim s)
  | _ =>
      let blocks := arrayBlocks content
      let texts := blocks.filter fun (block : JsObject) => isText (stringField block "type")
      let others := blocks.filter fun (block : JsObject) =>
        !isText (stringField block "type") && !isSkipped (stringField block "type")
      let textParts := texts.filterMap fun block => nonEmpty ((blockText block).map trim)
      let counts := fun kind => others.countP fun (block : JsObject) => omittedKind (stringField block "type") = kind
      { capContent (join '\n' textParts) with omitted := some (omittedList counts) }

def extractClaudeText : JsValue → TextExtraction :=
  extractText (fun type => type = some (js "text"))
    fun type => type = some (js "tool_use") || type = some (js "tool_result")

def extractCodexMessageText : JsValue → TextExtraction :=
  extractText
    (fun type => type = some (js "input_text") || type = some (js "output_text") ||
      type = some (js "text"))
    fun _ => false

/-- `entry.omitted` is set when there is something in it. -/
def TextExtraction.omittedItems (text : TextExtraction) : Option (List OmittedItem) :=
  text.omitted.filter fun items => items ≠ []

/-! ### Tool calls -/

structure ToolResult where
  output : JsString
  status : ToolStatus

/-- `Map<string, ToolResult[]>`. -/
abbrev ToolResults := JsString → List ToolResult

def pushToolResult (resultsById : ToolResults) (id : JsString) (result : ToolResult) : ToolResults :=
  Function.update resultsById id (resultsById id ++ [result])

/-- The oldest result of an id, which is taken off. -/
def consumeToolResult (resultsById : ToolResults) (id : JsString) : Option ToolResult × ToolResults :=
  match resultsById id with
  | [] => (none, resultsById)
  | result :: rest => (some result, Function.update resultsById id rest)

structure ToolEnrichment where
  lineIndex : Nat
  callId : Option JsString
  name : JsString
  output : JsString
  status : ToolStatus

def combinedToolResult (result : Option ToolResult) (enrichments : List ToolEnrichment) :
    Option ToolResult :=
  if result.isNone && enrichments.isEmpty then none
  else
    let outputs := ((result.map fun r => r.output).getD []) :: enrichments.map fun e => e.output
    let failed := result.any (fun r => r.status = .error) || enrichments.any fun e => e.status = .error
    some {
      output := join '\n' (outputs.filter fun part => part ≠ [])
      status := if failed then .error else .ok }

/-- A text as an optional property, and the mark that it was cut. -/
def ioFields (value : JsString) : Option JsString × Option Bool :=
  let capped := capString value historyToolIoCap
  (if capped.1 = [] then none else some capped.1, if capped.2 then some true else none)

def buildToolCall (id name : JsString) (inputValue : JsValue) (result : Option ToolResult)
    (enrichments : List ToolEnrichment) : SessionToolCall :=
  let input := ioFields (toolValueToString inputValue)
  match combinedToolResult result enrichments with
  | none => { id, name, input := input.1, inputTruncated := input.2 }
  | some combined =>
      let output := ioFields combined.output
      { id, name, input := input.1, inputTruncated := input.2, output := output.1,
        outputTruncated := output.2, status := some combined.status }

/-- The first 24 hexadecimal digits of the hash of a text. -/
def shortHash (host : HistoryHost) (text : JsString) : JsString :=
  (hexText (host.sha256 text)).take 24

def nul : UInt16 := 0

def syntheticCodexToolCall (host : HistoryHost) (enrichment : ToolEnrichment) : SessionToolCall :=
  let output := ioFields enrichment.output
  { id := enrichment.callId.getD
      (js "call_" ++ shortHash host (enrichment.name ++ nul :: digitUnits enrichment.lineIndex))
    name := enrichment.name
    status := some enrichment.status
    output := output.1
    outputTruncated := output.2 }

def entryId (host : HistoryHost) (engine : HistoryEngine) (sessionId : JsString)
    (startLineIndex : Nat) : JsString :=
  js "e_" ++ shortHash host (engine.text ++ nul :: (sessionId ++ nul :: digitUnits startLineIndex))

def roleField (obj : Option JsObject) : Option HistoryRole :=
  match stringField obj "role" with
  | none => none
  | some role =>
      if role = js "user" then some .user
      else if role = js "assistant" then some .assistant
      else none

/-- What both builders make of the text of a turn. -/
def textEntry (host : HistoryHost) (engine : HistoryEngine) (sessionId : JsString)
    (line : JsonlLine) (role : HistoryRole) (text : TextExtraction) : SessionHistoryEntry where
  entryId := entryId host engine sessionId line.lineIndex
  role := role
  content := text.content
  contentTruncated := text.contentTruncated
  omitted := text.omittedItems
  createdAt := isoFromUnknown host (fieldOf line.record "timestamp")

/-! ### Claude -/

def claudeToolResult (block : JsObject) : ToolResult where
  output := toolValueToString
    ((fieldOf block "content").orElse ((fieldOf block "output").orElse (fieldOf block "text")))
  status := statusFromPayload block

def claudeContent (line : JsonlLine) : JsValue := fieldOf (objectField line.record "message") "content"

def claudeResultsOf (resultsById : ToolResults) (block : JsObject) : ToolResults :=
  if stringField block "type" = some (js "tool_result") then
    match nonEmpty (stringField block "tool_use_id") with
    | some id => pushToolResult resultsById id (claudeToolResult block)
    | none => resultsById
  else resultsById

def claudeResults (lines : List JsonlLine) : ToolResults :=
  (lines.flatMap fun line => arrayBlocks (claudeContent line)).foldl claudeResultsOf fun _ => []

def claudeToolCalls : List JsObject → ToolResults → List SessionToolCall × ToolResults
  | [], resultsById => ([], resultsById)
  | block :: blocks, resultsById =>
      if stringField block "type" = some (js "tool_use") then
        match nonEmpty (stringField block "id"), nonEmpty (stringField block "name") with
        | some id, some name =>
            let consumed := consumeToolResult resultsById id
            let call := buildToolCall id name (fieldOf block "input") consumed.1 []
            let rest := claudeToolCalls blocks consumed.2
            (call :: rest.1, rest.2)
        | _, _ => claudeToolCalls blocks resultsById
      else claudeToolCalls blocks resultsById

def isOnlyClaudeToolResults (content : JsValue) : Bool :=
  arrayBlocks content ≠ [] &&
    (arrayBlocks content).all fun block => stringField block "type" = some (js "tool_result")

/-- The role of a turn that becomes an entry. -/
def claudeRole (line : JsonlLine) : Option HistoryRole :=
  let type := stringField line.record "type"
  if type = some (js "user") ∨ type = some (js "assistant") then
    match roleField (objectField line.record "message") with
    | some .user => if isOnlyClaudeToolResults (claudeContent line) then none else some .user
    | role => role
  else none

structure ClaudeBuild where
  results : ToolResults
  entries : List SessionHistoryEntry

def claudeStep (host : HistoryHost) (sessionId : JsString) (st : ClaudeBuild) (line : JsonlLine) :
    ClaudeBuild :=
  match claudeRole line with
  | none => st
  | some role =>
      let entry := textEntry host .claude sessionId line role (extractClaudeText (claudeContent line))
      match role with
      | .user => { st with entries := st.entries ++ [entry] }
      | .assistant =>
          let called := claudeToolCalls (arrayBlocks (claudeContent line)) st.results
          let calls := called.1.take historyPageMax
          { results := called.2
            entries := st.entries ++
              [if calls = [] then entry else { entry with toolCalls := some calls }] }

def buildClaudeHistoryEntries (host : HistoryHost) (lines : List JsonlLine) (sessionId : JsString) :
    List SessionHistoryEntry :=
  (lines.foldl (claudeStep host sessionId) ⟨claudeResults lines, []⟩).entries

/-! ### Codex -/

def codexToolResult (payload : JsObject) : ToolResult where
  output := toolValueToString ((fieldOf payload "output").orElse (fieldOf payload "formatted_output"))
  status := statusFromPayload payload

/-- A part of the summary of an event, where there is something to say. -/
def labelled (label : String) (value : Option JsString) : List JsString :=
  (value.map fun text => js label ++ text).toList

def boolText : JsValue → Option JsString
  | .bool true => some (js "true")
  | .bool false => some (js "false")
  | _ => none

def numberText : JsValue → Option JsString
  | .num n => some n.text
  | _ => none

def summarizeCodexEnrichment (payload : JsObject) : JsString :=
  join ' ' (((stringField payload "type").getD (js "tool_event")) ::
    (labelled "status=" (nonEmpty (stringField payload "status")) ++
      labelled "success=" (boolText (fieldOf payload "success")) ++
      labelled "exit_code=" (numberText (fieldOf payload "exit_code")) ++
      labelled "changes=" (nonEmpty (some (safeStringify (fieldOf payload "changes")))) ++
      labelled "stdout=" (nonEmpty (some (toolValueToString (fieldOf payload "stdout")))) ++
      labelled "stderr=" (nonEmpty (some (toolValueToString (fieldOf payload "stderr"))))))

def codexEnrichment (line : JsonlLine) : Option ToolEnrichment :=
  let recType := stringField line.record "type"
  if recType = some (js "event_msg") ∨ recType = some (js "response_item") then
    match objectField line.record "payload" with
    | none => none
    | some payload =>
        let type := stringField payload "type"
        if type = some (js "patch_apply_end") ∨ type = some (js "exec_command_end") then
          some {
            lineIndex := line.lineIndex
            callId := stringField payload "call_id"
            name := if type = some (js "patch_apply_end") then js "apply_patch" else js "exec_command"
            output := summarizeCodexEnrichment payload
            status := statusFromPayload payload }
        else none
  else none

/-- `response_item` with a payload of one of two types. -/
def isResponseItem (line : JsonlLine) (payload : JsObject) (types : List String) : Bool :=
  stringField line.record "type" = some (js "response_item") &&
    types.any fun type => stringField payload "type" = some (js type)

def isCodexMessage (line : JsonlLine) (payload : JsObject) : Bool :=
  isResponseItem line payload ["message"]

def isCodexCall (line : JsonlLine) (payload : JsObject) : Bool :=
  isResponseItem line payload ["function_call", "custom_tool_call"]

def isCodexOutput (line : JsonlLine) (payload : JsObject) : Bool :=
  isResponseItem line payload ["function_call_output", "custom_tool_call_output"]

/-- What the first pass over the file gathers. -/
structure CodexIndex where
  results : ToolResults
  enrichments : JsString → List ToolEnrichment
  callIds : List JsString

def codexIndexStep (index : CodexIndex) (line : JsonlLine) : CodexIndex :=
  match objectField line.record "payload" with
  | none => index
  | some payload =>
      if isCodexCall line payload then
        match nonEmpty (stringField payload "call_id") with
        | some id => { index with callIds := index.callIds ++ [id] }
        | none => index
      else if isCodexOutput line payload then
        match nonEmpty (stringField payload "call_id") with
        | some id => { index with results := pushToolResult index.results id (codexToolResult payload) }
        | none => index
      else
        match codexEnrichment line with
        | none => index
        | some enrichment =>
            match nonEmpty enrichment.callId with
            | some id => { index with
                enrichments := Function.update index.enrichments id
                  (index.enrichments id ++ [enrichment]) }
            | none => index

def codexIndex (lines : List JsonlLine) : CodexIndex :=
  lines.foldl codexIndexStep ⟨fun _ => [], fun _ => [], []⟩

def codexToolCall (payload : JsObject) (resultById : ToolResults)
    (enrichmentsById : JsString → List ToolEnrichment) : Option (SessionToolCall × ToolResults) :=
  match nonEmpty (stringField payload "call_id"), nonEmpty (stringField payload "name") with
  | some id, some name =>
      let inputValue :=
        if stringField payload "type" = some (js "custom_tool_call") then fieldOf payload "input"
        else fieldOf payload "arguments"
      let consumed := consumeToolResult resultById id
      some (buildToolCall id name inputValue consumed.1 (enrichmentsById id), consumed.2)
  | _, _ => none

/-- `currentAssistant` is an entry of the list: its place in it. -/
structure CodexBuild where
  results : ToolResults
  entries : List SessionHistoryEntry
  currentAssistant : Option Nat

def syntheticAssistantEntry (host : HistoryHost) (sessionId : JsString) (line : JsonlLine) :
    SessionHistoryEntry where
  entryId := entryId host .codex sessionId line.lineIndex
  role := .assistant
  content := []
  createdAt := isoFromUnknown host (fieldOf line.record "timestamp")

def SessionHistoryEntry.addCall (call : SessionToolCall) (entry : SessionHistoryEntry) :
    SessionHistoryEntry :=
  { entry with toolCalls := some ((entry.toolCalls.getD [] ++ [call]).take historyPageMax) }

/-- A call goes to the current assistant entry, which is made where there is none. -/
def CodexBuild.attach (host : HistoryHost) (sessionId : JsString) (line : JsonlLine)
    (call : SessionToolCall) (st : CodexBuild) : CodexBuild :=
  match st.currentAssistant with
  | some owner => { st with entries := st.entries.modify owner (SessionHistoryEntry.addCall call) }
  | none => { st with
      entries := st.entries ++ [(syntheticAssistantEntry host sessionId line).addCall call]
      currentAssistant := some st.entries.length }

/-- An event whose call is not in the file stands for the call. -/
def CodexIndex.standsAlone (index : CodexIndex) (enrichment : ToolEnrichment) : Bool :=
  match nonEmpty enrichment.callId with
  | none => true
  | some id => !index.callIds.contains id

def codexStep (host : HistoryHost) (sessionId : JsString) (index : CodexIndex) (st : CodexBuild)
    (line : JsonlLine) : CodexBuild :=
  match objectField line.record "payload" with
  | none => st
  | some payload =>
      if isCodexMessage line payload then
        match roleField payload with
        | none => st
        | some role =>
            let text := extractCodexMessageText (fieldOf payload "content")
            { st with
              entries := st.entries ++ [textEntry host .codex sessionId line role text]
              currentAssistant := if role = .assistant then some st.entries.length else none }
      else if isCodexCall line payload then
        match codexToolCall payload st.results index.enrichments with
        | none => st
        | some (call, results) => CodexBuild.attach host sessionId line call { st with results }
      else
        match codexEnrichment line with
        | none => st
        | some enrichment =>
            if index.standsAlone enrichment then
              st.attach host sessionId line (syntheticCodexToolCall host enrichment)
            else st

def buildCodexHistoryEntries (host : HistoryHost) (lines : List JsonlLine) (sessionId : JsString) :
    List SessionHistoryEntry :=
  let index := codexIndex lines
  (lines.foldl (codexStep host sessionId index) ⟨index.results, [], none⟩).entries

end HuginAgent
