/-
Which result a call is given.

Both builders queue the results of a file under their ids before they make a call, and a call
takes the oldest that is left under its id.  Here the calls and the results of a file are
listed in its order, and the calls that are made, those past the 256th of an entry among them,
are shown to be served from the queues one after the other (`toolResults_fifo`).
-/
import HuginAgent.History.Turns
import HuginAgent.Kit.Queues

namespace HuginAgent

/-- What a tool call of a history is made of: a call of the file, or an event that stands for
one. -/
inductive CallSource
  | call (id name : JsString) (input : JsValue)
  | event (enrichment : ToolEnrichment)

namespace CallSource

/-- The id whose results are asked for. -/
def asks : CallSource → Option JsString
  | .call id _ _ => some id
  | .event _ => none

def made (host : HistoryHost) (enrichmentsById : JsString → List ToolEnrichment) :
    CallSource → Option ToolResult → SessionToolCall
  | .call id name input, result => buildToolCall id name input result (enrichmentsById id)
  | .event enrichment, _ => syntheticCodexToolCall host enrichment

end CallSource

/-! ### The calls and results of a file, in its order -/

def claudeSource (block : JsObject) : Option CallSource :=
  if stringField block "type" = some (js "tool_use") then
    match nonEmpty (stringField block "id"), nonEmpty (stringField block "name") with
    | some id, some name => some (.call id name (fieldOf block "input"))
    | _, _ => none
  else none

def claudeSources (line : JsonlLine) : List CallSource :=
  if claudeRole line = some .assistant then (arrayBlocks (claudeContent line)).filterMap claudeSource
  else []

def claudeAnswer (block : JsObject) : Option (JsString × ToolResult) :=
  if stringField block "type" = some (js "tool_result") then
    (nonEmpty (stringField block "tool_use_id")).map fun id => (id, claudeToolResult block)
  else none

def codexSource (index : CodexIndex) (line : JsonlLine) : Option CallSource :=
  (objectField line.record "payload").bind fun payload =>
    if isCodexCall line payload then
      match nonEmpty (stringField payload "call_id"), nonEmpty (stringField payload "name") with
      | some id, some name =>
          some (.call id name
            (if stringField payload "type" = some (js "custom_tool_call") then fieldOf payload "input"
              else fieldOf payload "arguments"))
      | _, _ => none
    else ((codexEnrichment line).filter fun enrichment => index.standsAlone enrichment).map .event

def codexAnswer (line : JsonlLine) : Option (JsString × ToolResult) :=
  (objectField line.record "payload").bind fun payload =>
    if isCodexOutput line payload then
      (nonEmpty (stringField payload "call_id")).map fun id => (id, codexToolResult payload)
    else none

/-- The events about the call with an id. -/
def codexEvents (lines : List JsonlLine) (id : JsString) : List ToolEnrichment :=
  (lines.filterMap codexEnrichment).filter fun enrichment => nonEmpty enrichment.callId = some id

section

variable (host : HistoryHost) (engine : HistoryEngine) (content : JsString)

def fileSources : List CallSource :=
  let lines := parseJsonlLines host content
  match engine with
  | .claude => lines.flatMap claudeSources
  | .codex => lines.filterMap (codexSource (codexIndex lines))

def fileAnswers : List (JsString × ToolResult) :=
  let lines := parseJsonlLines host content
  match engine with
  | .claude => (lines.flatMap fun line => arrayBlocks (claudeContent line)).filterMap claudeAnswer
  | .codex => lines.filterMap codexAnswer

def fileEvents : JsString → List ToolEnrichment :=
  match engine with
  | .claude => fun _ => []
  | .codex => codexEvents (parseJsonlLines host content)

/-- The tool calls that are made, in the order of the file. -/
def fileCalls (sessionId : JsString) : List SessionToolCall :=
  (fileTurns host sessionId engine content).flatMap fun turn => turn.calls

/-- The place among the results of the one that the call at a place is given. -/
def givenResult : Nat → Option Nat :=
  Queues.taken CallSource.asks (fileSources host engine content) (fileAnswers host engine content)

end

/-! ### The first pass -/

theorem claudeResults_eq (lines : List JsonlLine) :
    claudeResults lines =
      Queues.fill ((lines.flatMap fun line => arrayBlocks (claudeContent line)).filterMap claudeAnswer) := by
  rw [claudeResults, Queues.fill, List.foldl_filterMap]
  congr 1
  funext results block
  unfold claudeResultsOf claudeAnswer
  split
  · cases nonEmpty (stringField block "tool_use_id") <;> rfl
  · rfl

/-- A record is not of two of the types. -/
theorem isResponseItem_apart {line : JsonlLine} {payload : JsObject} {types types' : List String}
    (h : isResponseItem line payload types = true) (hapart : ∀ a ∈ types, ∀ b ∈ types', js a ≠ js b) :
    isResponseItem line payload types' = false := by
  refine Bool.eq_false_iff.mpr fun h' => ?_
  obtain ⟨a, ha, hpayload⟩ := List.any_eq_true.mp (Bool.and_eq_true_iff.mp h).2
  obtain ⟨b, hb, hpayload'⟩ := List.any_eq_true.mp (Bool.and_eq_true_iff.mp h').2
  have hsame := (of_decide_eq_true hpayload).symm.trans (of_decide_eq_true hpayload')
  exact hapart a ha b hb (Option.some.inj hsame)

/-- A record that is told by its type is no event. -/
theorem codexEnrichment_responseItem {line : JsonlLine} {payload : JsObject} {types : List String}
    (hline : objectField line.record "payload" = some payload)
    (h : isResponseItem line payload types = true)
    (hapart : ∀ a ∈ types, ∀ b ∈ ["patch_apply_end", "exec_command_end"], js a ≠ js b) :
    codexEnrichment line = none := by
  obtain ⟨a, ha, hpayload⟩ := List.any_eq_true.mp (Bool.and_eq_true_iff.mp h).2
  have htype := of_decide_eq_true hpayload
  have hnot : ∀ b ∈ ["patch_apply_end", "exec_command_end"],
      stringField payload "type" ≠ some (js b) :=
    fun b hb hsame => hapart a ha b hb (Option.some.inj (htype.symm.trans hsame))
  unfold codexEnrichment
  simp only [hline]
  split
  · rw [if_neg]
    rintro (hsame | hsame)
    · exact hnot "patch_apply_end" (by simp) hsame
    · exact hnot "exec_command_end" (by simp) hsame
  · rfl

theorem codexIndexStep_results (index : CodexIndex) (line : JsonlLine) :
    (codexIndexStep index line).results =
      (codexAnswer line).elim index.results fun a => pushToolResult index.results a.1 a.2 := by
  unfold codexIndexStep codexAnswer
  cases objectField line.record "payload" with
  | none => rfl
  | some payload =>
      dsimp only [Option.bind_some]
      split
      · rename_i hcall
        have houtput : isCodexOutput line payload = false := isResponseItem_apart hcall (by decide)
        rw [houtput]
        cases nonEmpty (stringField payload "call_id") <;> rfl
      split
      · cases nonEmpty (stringField payload "call_id") <;> rfl
      · cases codexEnrichment line with
        | none => rfl
        | some enrichment => cases hid : nonEmpty enrichment.callId <;> simp only [hid] <;> rfl

theorem codexIndexStep_enrichments (index : CodexIndex) (line : JsonlLine) (id : JsString) :
    (codexIndexStep index line).enrichments id =
      index.enrichments id ++ codexEvents [line] id := by
  unfold codexIndexStep codexEvents
  rw [List.filterMap_cons, List.filterMap_nil]
  cases hline : objectField line.record "payload" with
  | none =>
      have hnone : codexEnrichment line = none := by
        unfold codexEnrichment
        simp only [hline]
        split <;> rfl
      simp [hnone]
  | some payload =>
      dsimp only
      split
      · rename_i hcall
        rw [codexEnrichment_responseItem hline hcall (by decide)]
        cases nonEmpty (stringField payload "call_id") <;> simp
      split
      · rename_i houtput
        rw [codexEnrichment_responseItem hline houtput (by decide)]
        cases nonEmpty (stringField payload "call_id") <;> simp
      · cases codexEnrichment line with
        | none => simp
        | some enrichment =>
            cases hid : nonEmpty enrichment.callId with
            | none => simp [hid]
            | some id' =>
                by_cases hsame : id = id'
                · simp [hid, hsame]
                · simp [hid, hsame, Ne.symm hsame]

theorem codexIndex_results (lines : List JsonlLine) :
    (codexIndex lines).results = Queues.fill (lines.filterMap codexAnswer) := by
  have hfold : ∀ (l : List JsonlLine) (index : CodexIndex),
      (l.foldl codexIndexStep index).results =
        (l.filterMap codexAnswer).foldl (fun queues a => Queues.put queues a.1 a.2) index.results := by
    intro l
    induction l with
    | nil => exact fun index => rfl
    | cons line l ih =>
        intro index
        rw [List.foldl_cons, ih, codexIndexStep_results, List.filterMap_cons]
        cases codexAnswer line <;> rfl
  exact hfold lines _

theorem codexIndex_enrichments (lines : List JsonlLine) :
    (codexIndex lines).enrichments = codexEvents lines := by
  have hfold : ∀ (l : List JsonlLine) (index : CodexIndex) (id : JsString),
      (l.foldl codexIndexStep index).enrichments id = index.enrichments id ++ codexEvents l id := by
    intro l
    induction l with
    | nil => exact fun index id => (List.append_nil _).symm
    | cons line l ih =>
        intro index id
        have hcons : codexEvents (line :: l) id = codexEvents [line] id ++ codexEvents l id := by
          rw [codexEvents, ← List.singleton_append, List.filterMap_append, List.filter_append]
          rfl
        rw [List.foldl_cons, ih, codexIndexStep_enrichments, hcons, List.append_assoc]
  exact funext (hfold lines _)

/-! ### The second pass -/

section Made

variable (host : HistoryHost) (sessionId : JsString)

/-- The calls that sources make, each with what it takes from the queues. -/
def madeCalls (enrichmentsById : JsString → List ToolEnrichment) (results : ToolResults)
    (sources : List CallSource) : List SessionToolCall :=
  (Queues.serve CallSource.asks results sources).1.map fun served =>
    served.1.made host enrichmentsById served.2

theorem consumeToolResult_eq (results : ToolResults) (id : JsString) :
    consumeToolResult results id = Queues.poll results id := by
  unfold consumeToolResult Queues.poll
  cases results id with
  | nil => rfl
  | cons result rest => rfl

theorem serve_call (results : ToolResults) (id name : JsString) (input : JsValue)
    (sources : List CallSource) :
    Queues.serve CallSource.asks results (.call id name input :: sources) =
      ((.call id name input, (consumeToolResult results id).1) ::
          (Queues.serve CallSource.asks (consumeToolResult results id).2 sources).1,
        (Queues.serve CallSource.asks (consumeToolResult results id).2 sources).2) := by
  rw [consumeToolResult_eq]
  rfl

theorem madeCalls_append (enrichmentsById : JsString → List ToolEnrichment) (results : ToolResults)
    (sources sources' : List CallSource) :
    madeCalls host enrichmentsById results (sources ++ sources') =
      madeCalls host enrichmentsById results sources ++
        madeCalls host enrichmentsById (Queues.serve CallSource.asks results sources).2 sources' := by
  rw [madeCalls, Queues.serve_append, List.map_append]
  rfl

theorem claudeToolCalls_eq (blocks : List JsObject) (results : ToolResults) :
    claudeToolCalls blocks results =
      (madeCalls host (fun _ => []) results (blocks.filterMap claudeSource),
        (Queues.serve CallSource.asks results (blocks.filterMap claudeSource)).2) := by
  induction blocks generalizing results with
  | nil => rfl
  | cons block blocks ih =>
      have hskip : claudeSource block = none →
          (block :: blocks).filterMap claudeSource = blocks.filterMap claudeSource :=
        fun hnone => List.filterMap_cons_none hnone
      unfold claudeToolCalls
      by_cases htype : stringField block "type" = some (js "tool_use")
      · rw [if_pos htype]
        cases hid : nonEmpty (stringField block "id") with
        | none =>
            rw [hskip (by rw [claudeSource, if_pos htype, hid])]
            exact ih results
        | some id =>
            cases hname : nonEmpty (stringField block "name") with
            | none =>
                rw [hskip (by rw [claudeSource, if_pos htype, hid, hname])]
                exact ih results
            | some name =>
                have hsource : claudeSource block = some (.call id name (fieldOf block "input")) := by
                  rw [claudeSource, if_pos htype, hid, hname]
                rw [List.filterMap_cons_some hsource, madeCalls, serve_call]
                dsimp only
                rw [ih]
                rfl
      · rw [if_neg htype, hskip (by rw [claudeSource, if_neg htype])]
        exact ih results

theorem claudeTurns_calls (results : ToolResults) (lines : List JsonlLine) :
    ((claudeTurns host sessionId results lines).flatMap fun turn => turn.calls) =
      madeCalls host (fun _ => []) results (lines.flatMap claudeSources) := by
  induction lines generalizing results with
  | nil => rfl
  | cons line lines ih =>
      rw [claudeTurns, List.flatMap_cons, madeCalls_append]
      unfold claudeSources
      cases claudeRole line with
      | none =>
          simp only [reduceCtorEq, if_false]
          exact ih results
      | some role =>
          cases role with
          | user => exact ih results
          | assistant =>
              dsimp only
              rw [List.flatMap_cons, ih, claudeToolCalls_eq host, if_pos rfl]
              rfl

/-- A record that makes no message makes the call it is the source of. -/
theorem codexCallOf_eq (index : CodexIndex) (results : ToolResults) {line : JsonlLine}
    {payload : JsObject} (hline : objectField line.record "payload" = some payload) :
    codexCallOf host index results line payload =
      (codexSource index line).bind fun source =>
        (madeCalls host index.enrichments results [source]).head?.map fun call =>
          (call, (Queues.serve CallSource.asks results [source]).2) := by
  rw [codexSource, hline, Option.bind_some]
  unfold codexCallOf
  by_cases hcall : isCodexCall line payload = true
  · rw [if_pos hcall, if_pos hcall]
    unfold codexToolCall
    cases nonEmpty (stringField payload "call_id") with
    | none => rfl
    | some id =>
        cases nonEmpty (stringField payload "name") with
        | none => rfl
        | some name =>
            dsimp only [Option.bind_some]
            rw [madeCalls, serve_call]
            rfl
  · rw [if_neg hcall, if_neg hcall]
    cases codexEnrichment line with
    | none => rfl
    | some enrichment =>
        by_cases halone : index.standsAlone enrichment = true
        · simp only [if_pos halone, Option.filter_some, Option.map_some, Option.bind_some]
          rfl
        · simp only [if_neg halone, Option.filter_some]
          rfl

/-- A message is no call. -/
theorem codexSource_message {index : CodexIndex} {line : JsonlLine} {payload : JsObject}
    (hline : objectField line.record "payload" = some payload)
    (hmessage : isCodexMessage line payload = true) : codexSource index line = none := by
  have hcall : isCodexCall line payload = false := isResponseItem_apart hmessage (by decide)
  rw [codexSource, hline, Option.bind_some, hcall,
    codexEnrichment_responseItem hline hmessage (by decide)]
  rfl

theorem codexTurns_calls (index : CodexIndex) (results : ToolResults) (current : Option HistoryTurn)
    (lines : List JsonlLine) :
    ((codexTurns host sessionId index results current lines).flatMap fun turn => turn.calls) =
      (current.elim [] fun turn => turn.calls) ++
        madeCalls host index.enrichments results (lines.filterMap (codexSource index)) := by
  induction lines generalizing results current with
  | nil =>
      rw [codexTurns]
      cases current <;> rfl
  | cons line lines ih =>
      have hcurrent : current.toList.flatMap (fun turn => turn.calls) =
          current.elim [] fun turn => turn.calls := by
        cases current with
        | none => rfl
        | some turn => exact List.flatMap_singleton _ turn
      rw [codexTurns]
      cases hline : objectField line.record "payload" with
      | none =>
          rw [List.filterMap_cons_none (by rw [codexSource, hline]; rfl)]
          exact ih results current
      | some payload =>
          dsimp only
          by_cases hmessage : isCodexMessage line payload = true
          · rw [if_pos hmessage, List.filterMap_cons_none (codexSource_message hline hmessage)]
            cases roleField payload with
            | none => exact ih results current
            | some role =>
                dsimp only
                split
                · rw [List.flatMap_append, ih, hcurrent]
                  rfl
                · rw [List.flatMap_append, List.flatMap_cons, ih, hcurrent]
                  rfl
          · rw [if_neg hmessage, codexCallOf_eq host index results hline]
            cases hsource : codexSource index line with
            | none =>
                rw [List.filterMap_cons_none hsource]
                exact ih results current
            | some source =>
                rw [List.filterMap_cons_some hsource, ← List.singleton_append, madeCalls_append,
                  Option.bind_some]
                -- one source makes one call
                obtain ⟨call, hone⟩ : ∃ call, madeCalls host index.enrichments results [source] = [call] := by
                  cases source <;> exact ⟨_, rfl⟩
                rw [hone]
                dsimp only [List.head?_cons, Option.map_some]
                rw [ih, Option.elim_some, ← List.append_assoc]
                cases current <;> rfl

theorem fileCalls_eq (engine : HistoryEngine) (content : JsString) :
    fileCalls host engine content sessionId =
      madeCalls host (fileEvents host engine content)
        (Queues.fill (fileAnswers host engine content)) (fileSources host engine content) := by
  cases engine with
  | claude =>
      show ((claudeTurns host sessionId (claudeResults _) _).flatMap fun turn => turn.calls) = _
      rw [claudeTurns_calls, claudeResults_eq]
      rfl
  | codex =>
      show ((codexTurns host sessionId (codexIndex _) (codexIndex _).results none _).flatMap
        fun turn => turn.calls) = _
      rw [codexTurns_calls, codexIndex_results, codexIndex_enrichments]
      rfl

end Made

/-! ### Status -/

theorem combinedToolResult_none {result : Option ToolResult} {enrichments : List ToolEnrichment} :
    combinedToolResult result enrichments = none ↔ result = none ∧ enrichments = [] := by
  unfold combinedToolResult
  cases result <;> cases enrichments <;> simp

/-- A call failed when its result or an event about it says so. -/
theorem buildToolCall_failed (id name : JsString) (input : JsValue) (result : Option ToolResult)
    (enrichments : List ToolEnrichment) :
    (buildToolCall id name input result enrichments).status = some .error ↔
      (∃ r, result = some r ∧ r.status = .error) ∨ ∃ e ∈ enrichments, e.status = .error := by
  unfold buildToolCall
  cases hcombined : combinedToolResult result enrichments with
  | none =>
      obtain ⟨rfl, rfl⟩ := combinedToolResult_none.mp hcombined
      simp
  | some combined =>
      unfold combinedToolResult at hcombined
      split at hcombined
      · exact nomatch hcombined
      · obtain rfl := Option.some.inj hcombined
        by_cases hfailed : (result.any (fun r => r.status = .error) ||
            enrichments.any fun e => e.status = .error) = true
        · rw [if_pos hfailed]
          refine iff_of_true rfl ?_
          cases result <;> simpa using hfailed
        · rw [if_neg hfailed]
          refine iff_of_false (by simp) ?_
          cases result <;> simpa using hfailed

theorem buildToolCall_unanswered (id name : JsString) (input : JsValue) (result : Option ToolResult)
    (enrichments : List ToolEnrichment) :
    (buildToolCall id name input result enrichments).status = none ↔
      result = none ∧ enrichments = [] := by
  rw [← combinedToolResult_none, buildToolCall]
  cases combinedToolResult result enrichments <;> simp

/-! ### First in, first out -/

/-- Calls are given the results of their ids in the order of both in the file. -/
structure FirstInFirstOut (host : HistoryHost) (engine : HistoryEngine)
    (content sessionId : JsString) : Prop where
  /-- Entries are built of turns, and those of their calls of which there is room are shown. -/
  entries : buildHistoryEntries host engine content sessionId =
    (fileTurns host sessionId engine content).map fun turn => boundHistoryEntryBytes turn.built
  shown : ∀ turn ∈ fileTurns host sessionId engine content,
    turn.built.calls = turn.calls.take historyPageMax
  /-- A call is made of its source, the result it is given and the events about it. -/
  calls : ∀ i, (fileCalls host engine content sessionId)[i]? =
    (fileSources host engine content)[i]?.map fun source : CallSource =>
      source.made host (fileEvents host engine content)
        ((givenResult host engine content i).bind fun p =>
          (fileAnswers host engine content)[p]?.map Prod.snd)
  nth : ∀ (id : JsString) (n i : Nat),
    ((fileSources host engine content).findIdxs fun source => source.asks = some id)[n]? = some i →
      givenResult host engine content i =
        ((fileAnswers host engine content).findIdxs fun answer => answer.1 = id)[n]?
  once : ∀ i j p, givenResult host engine content i = some p →
    givenResult host engine content j = some p → i = j
  failed : ∀ i id name input call,
    (fileSources host engine content)[i]? = some (.call id name input) →
      (fileCalls host engine content sessionId)[i]? = some call →
        (call.status = some .error ↔
          (∃ p answer, givenResult host engine content i = some p ∧
            (fileAnswers host engine content)[p]? = some answer ∧ answer.2.status = .error) ∨
          ∃ e ∈ fileEvents host engine content id, e.status = .error)
  unanswered : ∀ i id name input call,
    (fileSources host engine content)[i]? = some (.call id name input) →
      (fileCalls host engine content sessionId)[i]? = some call →
        (call.status = none ↔ givenResult host engine content i = none ∧
          fileEvents host engine content id = [])

theorem fileCalls_getElem? (host : HistoryHost) (engine : HistoryEngine) (content sessionId : JsString)
    (i : Nat) :
    (fileCalls host engine content sessionId)[i]? =
      (fileSources host engine content)[i]?.map fun source : CallSource =>
        source.made host (fileEvents host engine content)
          ((givenResult host engine content i).bind fun p =>
            (fileAnswers host engine content)[p]?.map Prod.snd) := by
  rw [fileCalls_eq, madeCalls, List.getElem?_map, Queues.serve_fill, Option.map_map]
  rfl

/-- The place of a given result is the place of one. -/
theorem givenResult_lt {host : HistoryHost} {engine : HistoryEngine} {content : JsString} {i p : Nat}
    (h : givenResult host engine content i = some p) :
    ∃ answer, (fileAnswers host engine content)[p]? = some answer := by
  obtain ⟨id, -, hplace⟩ := Option.bind_eq_some_iff.mp h
  obtain ⟨-, answer, hanswer, -⟩ := Queues.count_before hplace
  exact ⟨answer, hanswer⟩

/-- **Tool results are matched first in, first out.** -/
theorem toolResults_fifo (host : HistoryHost) (engine : HistoryEngine)
    (content sessionId : JsString) : FirstInFirstOut host engine content sessionId where
  entries := by
    rw [buildHistoryEntries_eq, builtEntries_eq, List.map_map, Function.comp_def]
  shown := fun turn _ => calls_built turn
  calls := fileCalls_getElem? host engine content sessionId
  nth := fun id n i h => Queues.taken_nth h
  once := fun i j p hi hj => Queues.taken_inj hi hj
  failed := by
    intro i id name input call hsource hcall
    rw [fileCalls_getElem?, hsource, Option.map_some] at hcall
    obtain rfl := Option.some.inj hcall
    refine (buildToolCall_failed _ _ _ _ _).trans (or_congr_left ?_)
    constructor
    · rintro ⟨r, hr, herror⟩
      obtain ⟨p, hp, hanswer⟩ := Option.bind_eq_some_iff.mp hr
      obtain ⟨answer, hat, rfl⟩ := Option.map_eq_some_iff.mp hanswer
      exact ⟨p, answer, hp, hat, herror⟩
    · rintro ⟨p, answer, hp, hat, herror⟩
      exact ⟨answer.2, by rw [hp, Option.bind_some, hat, Option.map_some], herror⟩
  unanswered := by
    intro i id name input call hsource hcall
    rw [fileCalls_getElem?, hsource, Option.map_some] at hcall
    obtain rfl := Option.some.inj hcall
    refine (buildToolCall_unanswered _ _ _ _ _).trans (and_congr_left fun _ => ?_)
    constructor
    · intro hnone
      cases hgiven : givenResult host engine content i with
      | none => rfl
      | some p =>
          obtain ⟨answer, hat⟩ := givenResult_lt hgiven
          rw [hgiven, Option.bind_some, hat] at hnone
          exact nomatch hnone
    · intro hnone
      rw [hnone, Option.bind_none]

end HuginAgent
