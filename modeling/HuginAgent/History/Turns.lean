/-
The turns of a session file.

A turn is a record that opens an entry and the calls that records give it, however many.  The
builders' entries are the turns of the file with the first 256 calls of each
(`builtEntries_eq`), so what is asked of the calls and the dates of a history is asked of its
turns.
-/
import HuginAgent.History.Plain

namespace HuginAgent

structure HistoryTurn where
  opened : JsonlLine
  /-- The entry without calls. -/
  entry : SessionHistoryEntry
  calls : List SessionToolCall := []

namespace HistoryTurn

def give (call : SessionToolCall) (turn : HistoryTurn) : HistoryTurn :=
  { turn with calls := turn.calls ++ [call] }

/-- The entry that is built of a turn. -/
def built (turn : HistoryTurn) : SessionHistoryEntry :=
  { turn.entry with
    toolCalls := if turn.calls = [] then none else some (turn.calls.take historyPageMax) }

end HistoryTurn

section

variable (host : HistoryHost) (sessionId : JsString)

def claudeTurns : ToolResults → List JsonlLine → List HistoryTurn
  | _, [] => []
  | results, line :: lines =>
      match claudeRole line with
      | none => claudeTurns results lines
      | some role =>
          let entry := textEntry host .claude sessionId line role
            (extractClaudeText (claudeContent line))
          match role with
          | .user => { opened := line, entry } :: claudeTurns results lines
          | .assistant =>
              let called := claudeToolCalls (arrayBlocks (claudeContent line)) results
              { opened := line, entry, calls := called.1 } :: claudeTurns called.2 lines

/-- The call that a record is or stands for. -/
def codexCallOf (index : CodexIndex) (results : ToolResults) (line : JsonlLine)
    (payload : JsObject) : Option (SessionToolCall × ToolResults) :=
  if isCodexCall line payload then codexToolCall payload results index.enrichments
  else
    match codexEnrichment line with
    | none => none
    | some enrichment =>
        if index.standsAlone enrichment then some (syntheticCodexToolCall host enrichment, results)
        else none

/-- The turns from a record on, where `current` is the assistant's turn before it. -/
def codexTurns (index : CodexIndex) : ToolResults → Option HistoryTurn → List JsonlLine → List HistoryTurn
  | _, current, [] => current.toList
  | results, current, line :: lines =>
      match objectField line.record "payload" with
      | none => codexTurns index results current lines
      | some payload =>
          if isCodexMessage line payload then
            match roleField payload with
            | none => codexTurns index results current lines
            | some role =>
                let turn : HistoryTurn := {
                  opened := line
                  entry := textEntry host .codex sessionId line role
                    (extractCodexMessageText (fieldOf payload "content")) }
                if role = .assistant then
                  current.toList ++ codexTurns index results (some turn) lines
                else current.toList ++ turn :: codexTurns index results none lines
          else
            match codexCallOf host index results line payload with
            | none => codexTurns index results current lines
            | some (call, results') =>
                let owner := current.getD {
                  opened := line
                  entry := syntheticAssistantEntry host sessionId line }
                codexTurns index results' (some (owner.give call)) lines

/-- The turns of a file. -/
def fileTurns (engine : HistoryEngine) (content : JsString) : List HistoryTurn :=
  let lines := parseJsonlLines host content
  match engine with
  | .claude => claudeTurns host sessionId (claudeResults lines) lines
  | .codex => codexTurns host sessionId (codexIndex lines) (codexIndex lines).results none lines

end

/-! ### The entries are built of the turns -/

section Built

variable {host : HistoryHost} {sessionId : JsString}

theorem built_of_calls_nil {turn : HistoryTurn} (h : turn.calls = []) :
    turn.built = { turn.entry with toolCalls := none } := by
  rw [HistoryTurn.built, if_pos h]

theorem built_of_calls {turn : HistoryTurn} (h : turn.calls ≠ []) :
    turn.built = { turn.entry with toolCalls := some (turn.calls.take historyPageMax) } := by
  rw [HistoryTurn.built, if_neg h]

theorem calls_built (turn : HistoryTurn) : turn.built.calls = turn.calls.take historyPageMax := by
  by_cases h : turn.calls = []
  · rw [built_of_calls_nil h, h]
    rfl
  · rw [built_of_calls h]
    rfl

theorem claudeTurns_built (lines : List JsonlLine) (st : ClaudeBuild) :
    (lines.foldl (claudeStep host sessionId) st).entries =
      st.entries ++ (claudeTurns host sessionId st.results lines).map HistoryTurn.built := by
  induction lines generalizing st with
  | nil => exact (List.append_nil _).symm
  | cons line lines ih =>
      rw [List.foldl_cons, ih, claudeTurns]
      unfold claudeStep
      cases hrole : claudeRole line with
      | none => rfl
      | some role =>
          cases role with
          | user =>
              dsimp only
              rw [List.map_cons, List.append_assoc, List.singleton_append, built_of_calls_nil rfl]
              rfl
          | assistant =>
              dsimp only
              rw [List.map_cons, List.append_assoc, List.singleton_append]
              refine congrArg (fun entry => st.entries ++ entry :: _) ?_
              split
              · rename_i htake
                rw [built_of_calls_nil ((List.take_eq_nil_iff.mp htake).resolve_left (by decide))]
                rfl
              · rename_i htake
                rw [built_of_calls]
                intro hnil
                dsimp only at hnil
                exact htake (by rw [hnil, List.take_nil])

/-- The limit on the calls of an entry may as well be applied once. -/
theorem take_take_append {α : Type} (n : Nat) (l m : List α) :
    (l.take n ++ m).take n = (l ++ m).take n := by
  rw [List.take_append, List.take_append, List.take_take, Nat.min_self, List.length_take]
  by_cases h : n ≤ l.length
  · rw [Nat.min_eq_left h, Nat.sub_self, Nat.sub_eq_zero_of_le h]
  · rw [Nat.min_eq_right (Nat.le_of_not_le h)]

theorem built_give (call : SessionToolCall) (turn : HistoryTurn) :
    (turn.give call).built = turn.built.addCall call := by
  have hcalls : (turn.calls.take historyPageMax ++ [call]).take historyPageMax =
      (turn.calls ++ [call]).take historyPageMax := take_take_append _ _ _
  rw [built_of_calls (List.concat_ne_nil _ _), SessionHistoryEntry.addCall]
  show { turn.entry with toolCalls := some ((turn.calls ++ [call]).take historyPageMax) } =
    { turn.entry with
      toolCalls := some ((turn.built.calls ++ [call]).take historyPageMax) }
  rw [calls_built, hcalls]

theorem codexStep_eq (index : CodexIndex) (st : CodexBuild) (line : JsonlLine) :
    codexStep host sessionId index st line =
      match objectField line.record "payload" with
      | none => st
      | some payload =>
          if isCodexMessage line payload then
            match roleField payload with
            | none => st
            | some role =>
                { st with
                  entries := st.entries ++ [textEntry host .codex sessionId line role
                    (extractCodexMessageText (fieldOf payload "content"))]
                  currentAssistant := if role = .assistant then some st.entries.length else none }
          else
            match codexCallOf host index st.results line payload with
            | none => st
            | some (call, results) => CodexBuild.attach host sessionId line call { st with results } := by
  unfold codexStep codexCallOf
  cases objectField line.record "payload" with
  | none => rfl
  | some payload =>
      dsimp only
      by_cases hmessage : isCodexMessage line payload = true
      · cases roleField payload <;> simp only [if_pos hmessage]
      by_cases hcall : isCodexCall line payload = true
      · cases codexToolCall payload st.results index.enrichments <;>
          simp only [if_neg hmessage, if_pos hcall]
      · simp only [if_neg hmessage, if_neg hcall]
        cases codexEnrichment line with
        | none => rfl
        | some enrichment =>
            dsimp only
            split
            · rfl
            · rfl

/-- The builder's state, told by turns: those that are done, and the assistant's one at hand. -/
structure Shows (st : CodexBuild) (done : List HistoryTurn) (current : Option HistoryTurn) : Prop where
  entries : st.entries = (done ++ current.toList).map HistoryTurn.built
  currentAssistant : st.currentAssistant = current.map fun _ => done.length

theorem Shows.opens {st : CodexBuild} {done : List HistoryTurn} {current : Option HistoryTurn}
    (h : Shows st done current) {turn : HistoryTurn} (hturn : turn.built = turn.entry) :
    st.entries ++ [turn.entry] = (done ++ current.toList ++ [turn]).map HistoryTurn.built := by
  rw [h.entries, @List.map_append _ _ _ (done ++ current.toList), List.map_singleton, hturn]

theorem attach_results (line : JsonlLine) (call : SessionToolCall) (st : CodexBuild) :
    (st.attach host sessionId line call).results = st.results := by
  unfold CodexBuild.attach
  split
  · rfl
  · rfl

theorem Shows.attach {st : CodexBuild} {done : List HistoryTurn} {current : Option HistoryTurn}
    (h : Shows st done current) (line : JsonlLine) (call : SessionToolCall) :
    Shows (st.attach host sessionId line call) done (some ((current.getD {
      opened := line, entry := syntheticAssistantEntry host sessionId line }).give call)) := by
  obtain ⟨hentries, hcurrent⟩ := h
  unfold CodexBuild.attach
  cases current with
  | none =>
      simp only [hcurrent, Option.map_none, Option.getD_none]
      rw [Option.toList_none, List.append_nil] at hentries
      refine ⟨?_, ?_⟩
      · dsimp only
        rw [hentries, Option.toList_some, List.map_append, List.map_singleton, built_give]
        rfl
      · dsimp only
        rw [hentries, List.length_map]
        rfl
  | some turn =>
      simp only [hcurrent, Option.map_some, Option.getD_some]
      refine ⟨?_, rfl⟩
      dsimp only
      rw [hentries, Option.toList_some, Option.toList_some, List.map_append, List.map_append,
        List.map_singleton, List.map_singleton, built_give]
      have hlast := List.modifyTailIdx_add
        (List.modifyHead (SessionHistoryEntry.addCall call)) 0 (done.map HistoryTurn.built) [turn.built]
      rwa [List.length_map] at hlast

/-- **The entries that Codex records give are built of the turns they give.** -/
theorem codexTurns_built {index : CodexIndex} (lines : List JsonlLine) {st : CodexBuild}
    {done : List HistoryTurn} {current : Option HistoryTurn} (h : Shows st done current) :
    (lines.foldl (codexStep host sessionId index) st).entries =
      (done ++ codexTurns host sessionId index st.results current lines).map HistoryTurn.built := by
  induction lines generalizing st done current with
  | nil => exact h.entries
  | cons line lines ih =>
      rw [List.foldl_cons, codexStep_eq, codexTurns]
      cases objectField line.record "payload" with
      | none => exact ih h
      | some payload =>
          dsimp only
          by_cases hmessage : isCodexMessage line payload = true
          · rw [if_pos hmessage, if_pos hmessage]
            cases roleField payload with
            | none => exact ih h
            | some role =>
                dsimp only
                have hlength : st.entries.length = (done ++ current.toList).length := by
                  rw [h.entries, List.length_map]
                have hopens := @Shows.opens st done current h {
                  opened := line
                  entry := textEntry host .codex sessionId line role
                    (extractCodexMessageText (fieldOf payload "content")) } rfl
                by_cases hrole : role = .assistant
                · rw [if_pos hrole, if_pos hrole, ← List.append_assoc]
                  exact ih ⟨hopens, congrArg some hlength⟩
                · rw [← List.append_nil (done ++ current.toList ++ [_])] at hopens
                  rw [if_neg hrole, if_neg hrole, ← List.append_assoc,
                    List.append_cons (done ++ current.toList)]
                  exact @ih { st with entries := _, currentAssistant := none } _ none ⟨hopens, rfl⟩
          · rw [if_neg hmessage, if_neg hmessage]
            cases codexCallOf host index st.results line payload with
            | none => exact ih h
            | some given =>
                obtain ⟨call, results⟩ := given
                have hstate : Shows { st with results } done current := ⟨h.entries, h.currentAssistant⟩
                have hattach := @Shows.attach host sessionId _ _ _ hstate line call
                have hrest := ih hattach
                rw [attach_results] at hrest
                exact hrest

/-- **What a file is built into is its turns.** -/
theorem builtEntries_eq (engine : HistoryEngine) (content : JsString) :
    builtEntries host engine content sessionId =
      (fileTurns host sessionId engine content).map HistoryTurn.built := by
  cases engine with
  | claude => exact claudeTurns_built _ _
  | codex =>
      have hstart : Shows ⟨(codexIndex (parseJsonlLines host content)).results, [], none⟩ [] none :=
        ⟨rfl, rfl⟩
      exact codexTurns_built _ hstart

end Built

/-! ### What a turn holds -/

/-- What is known of a turn: its date is that of the record that opens it, and there is room
under `room` for the calls beside what is counted. -/
structure TurnWithin (host : HistoryHost) (room : Nat) (turn : HistoryTurn) : Prop where
  createdAt : turn.entry.createdAt = isoFromUnknown host (fieldOf turn.opened.record "timestamp")
  counts : ∀ items ∈ turn.entry.omitted, ∀ item ∈ items, item.count + turn.calls.length ≤ room

section Within

variable {host : HistoryHost} {sessionId : JsString}

/-- What `extractText` counts are blocks that are neither text nor skipped. -/
theorem extractText_count_le {isText isSkipped : Option JsString → Bool} {content : JsValue}
    {items : List OmittedItem} (h : (extractText isText isSkipped content).omitted = some items)
    {item : OmittedItem} (hitem : item ∈ items) :
    item.count ≤ (arrayBlocks content).countP fun (block : JsObject) =>
      !isText (stringField block "type") && !isSkipped (stringField block "type") := by
  unfold extractText at h
  split at h
  · exact nomatch h
  · obtain rfl := Option.some.inj h
    rw [(mem_omittedList hitem).2, List.countP_eq_length_filter (l := arrayBlocks content)]
    exact List.countP_le_length

/-- Each call of a turn of Claude's is a block that is skipped as text. -/
theorem claudeToolCalls_length_le (blocks : List JsObject) (results : ToolResults) :
    (claudeToolCalls blocks results).1.length ≤
      blocks.countP fun (block : JsObject) => stringField block "type" = some (js "tool_use") := by
  induction blocks generalizing results with
  | nil => exact Nat.le_refl 0
  | cons block blocks ih =>
      rw [claudeToolCalls]
      split
      · rename_i htype
        rw [List.countP_cons_of_pos (by simpa using htype)]
        split
        · exact Nat.succ_le_succ (ih _)
        · exact Nat.le_succ_of_le (ih _)
      · rename_i htype
        rw [List.countP_cons_of_neg (by simpa using htype)]
        exact ih _

theorem countP_add_countP_le {α : Type} {p q : α → Bool} (l : List α)
    (h : ∀ a, p a = true → q a = false) : l.countP p + l.countP q ≤ l.length := by
  induction l with
  | nil => exact Nat.le_refl 0
  | cons a l ih =>
      rw [List.countP_cons, List.countP_cons, List.length_cons]
      by_cases hp : p a = true
      · rw [if_pos hp, h a hp]
        simp only [Bool.false_eq_true, if_false]
        omega
      · rw [if_neg hp]
        split <;> omega

/-- The room that a line leaves: its own record, and one call for each of the other lines. -/
def RoomFor (room : Nat) (lines : List JsonlLine) : Prop :=
  ∀ line ∈ lines, JsValue.nodesOfFields line.record + lines.length ≤ room + 1

theorem RoomFor.tail {room : Nat} {line : JsonlLine} {lines : List JsonlLine}
    (h : RoomFor room (line :: lines)) : RoomFor room lines := by
  intro line' hline'
  have hle := h line' (List.mem_cons_of_mem _ hline')
  rw [List.length_cons] at hle
  omega

theorem TurnWithin.mono {n m : Nat} {turn : HistoryTurn} (h : TurnWithin host n turn) (hle : n ≤ m) :
    TurnWithin host m turn :=
  { h with counts := fun items hitems item hitem => Nat.le_trans (h.counts items hitems item hitem) hle }

/-- A turn whose text and calls are blocks of one array, or have text alone. -/
theorem textTurn_within {engine : HistoryEngine} {line : JsonlLine} {role : HistoryRole}
    {isText isSkipped : Option JsString → Bool} {content : JsValue} {calls : List SessionToolCall}
    {room : Nat}
    (h : ((arrayBlocks content).countP fun (block : JsObject) =>
      !isText (stringField block "type") && !isSkipped (stringField block "type")) +
        calls.length ≤ room) :
    TurnWithin host room ⟨line, textEntry host engine sessionId line role
      (extractText isText isSkipped content), calls⟩ where
  createdAt := rfl
  counts _ hitems _ hitem :=
    Nat.le_trans (Nat.add_le_add_right
      (extractText_count_le (Option.mem_filter_iff.mp hitems).1 hitem) _) h

theorem claudeTurns_within {room : Nat} {lines : List JsonlLine}
    (h : ∀ line ∈ lines, JsValue.nodesOfFields line.record ≤ room) (results : ToolResults) :
    ∀ turn ∈ claudeTurns host sessionId results lines, TurnWithin host room turn := by
  induction lines generalizing results with
  | nil => exact fun _ hturn => absurd hturn List.not_mem_nil
  | cons line lines ih =>
      obtain ⟨hline, hlines⟩ := List.forall_mem_cons.mp h
      have hblocks := Nat.le_trans (claudeContent_blocks_le line) hline
      rw [claudeTurns]
      split
      · exact ih hlines results
      · dsimp only
        split
        · refine List.forall_mem_cons.mpr ⟨textTurn_within ?_, ih hlines results⟩
          exact Nat.le_trans List.countP_le_length hblocks
        · refine List.forall_mem_cons.mpr ⟨textTurn_within ?_, ih hlines _⟩
          have hcalls := claudeToolCalls_length_le (arrayBlocks (claudeContent line)) results
          have hdisjoint := countP_add_countP_le (arrayBlocks (claudeContent line))
            (p := fun (block : JsObject) => decide (stringField block "type" = some (js "tool_use")))
            (q := fun (block : JsObject) =>
              !decide (stringField block "type" = some (js "text")) &&
                !(decide (stringField block "type" = some (js "tool_use")) ||
                  decide (stringField block "type" = some (js "tool_result")))) (by
              intro block htype
              rw [htype, Bool.true_or, Bool.not_true, Bool.and_false])
          omega

theorem give_within {room : Nat} {turn : HistoryTurn} (call : SessionToolCall)
    (h : TurnWithin host room turn) : TurnWithin host (room + 1) (turn.give call) where
  createdAt := h.createdAt
  counts items hitems item hitem := by
    have hle := h.counts items hitems item hitem
    show item.count + (turn.calls ++ [call]).length ≤ room + 1
    rw [List.length_append, List.length_singleton]
    omega

theorem codexTurns_within {room : Nat} {index : CodexIndex} {lines : List JsonlLine}
    (h : RoomFor room lines) (results : ToolResults) {current : Option HistoryTurn}
    (hcurrent : ∀ turn ∈ current, ∃ n, n + lines.length ≤ room ∧ TurnWithin host n turn) :
    ∀ turn ∈ codexTurns host sessionId index results current lines, TurnWithin host room turn := by
  induction lines generalizing results current with
  | nil =>
      intro turn hturn
      obtain ⟨n, hle, hwithin⟩ := hcurrent turn (Option.mem_toList.mp hturn)
      exact hwithin.mono hle
  | cons line lines ih =>
      have hkept : ∀ turn ∈ current, ∃ n, n + lines.length ≤ room ∧ TurnWithin host n turn := by
        intro turn hturn
        obtain ⟨n, hle, hwithin⟩ := hcurrent turn hturn
        rw [List.length_cons] at hle
        exact ⟨n, by omega, hwithin⟩
      have hdone : ∀ turn ∈ current.toList, TurnWithin host room turn := by
        intro turn hturn
        obtain ⟨n, hle, hwithin⟩ := hkept turn (Option.mem_toList.mp hturn)
        exact hwithin.mono (Nat.le_of_add_right_le hle)
      have hroom := h line List.mem_cons_self
      rw [List.length_cons] at hroom
      rw [codexTurns]
      split
      · exact ih h.tail results hkept
      · rename_i payload hpayload
        have hblocks := codexContent_blocks_le hpayload
        split
        · split
          · exact ih h.tail results hkept
          · rename_i role _
            have hturn : TurnWithin host (JsValue.nodesOfFields line.record) ⟨line,
                textEntry host .codex sessionId line role
                  (extractCodexMessageText (fieldOf payload "content")), []⟩ :=
              textTurn_within (Nat.le_trans List.countP_le_length hblocks)
            dsimp only
            split
            · refine List.forall_mem_append.mpr ⟨hdone, ih h.tail results ?_⟩
              intro turn hsome
              obtain rfl := Option.some.inj hsome
              exact ⟨_, by omega, hturn⟩
            · refine List.forall_mem_append.mpr ⟨hdone, List.forall_mem_cons.mpr ⟨?_, ?_⟩⟩
              · exact hturn.mono (by omega)
              · exact ih h.tail results fun _ hnone => (nomatch hnone)
        · split
          · exact ih h.tail results hkept
          · refine ih h.tail _ ?_
            intro turn hsome
            obtain rfl := Option.some.inj hsome
            cases current with
            | none =>
                exact ⟨0, by omega, rfl, fun _ hitems => (nomatch hitems)⟩
            | some owner =>
                obtain ⟨n, hle, hwithin⟩ := hcurrent owner rfl
                rw [List.length_cons] at hle
                exact ⟨n + 1, by omega, give_within _ hwithin⟩

/-- **In every turn of a file there is room for the calls beside what is counted.** -/
theorem fileTurns_within (engine : HistoryEngine) (content : JsString) :
    ∀ turn ∈ fileTurns host sessionId engine content, TurnWithin host content.length turn := by
  have hroom : RoomFor content.length (parseJsonlLines host content) := by
    intro line hline
    obtain ⟨raw, hraw, hparse⟩ := mem_jsonlFrom hline
    have hnodes := parseRecord_nodes hparse
    have hlength := splitRecords_room hraw
    have hlines := jsonlFrom_length_le host (splitRecords content) 0
    unfold parseJsonlLines
    omega
  cases engine with
  | claude =>
      refine claudeTurns_within ?_ _
      intro line hline
      have hpos := List.length_pos_of_mem hline
      have hle := hroom line hline
      omega
  | codex => exact codexTurns_within hroom _ fun _ hnone => (nomatch hnone)

end Within

end HuginAgent
