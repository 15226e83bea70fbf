/-
History while the session file grows.

What an entry shows, its name, role and text, is decided by the records up to its line, but
for one thing: an event of Codex stands for a call only while no record of the call is in the
file.  So the entries of a file are the first entries of every longer file, unless an event
had an entry made for itself and its call comes later (`append_stable_iff`).
-/
import HuginAgent.History.Paging
import HuginAgent.History.Plain

namespace HuginAgent

/-- What an entry shows. -/
def SessionHistoryEntry.shows (entry : SessionHistoryEntry) : JsString × HistoryRole × JsString :=
  (entry.entryId, entry.role, entry.content)

theorem Plain.bound_shows {host : HistoryHost} {engine : HistoryEngine} {sessionId : JsString}
    {entry : SessionHistoryEntry} (h : Plain host engine sessionId entry) :
    (boundHistoryEntryBytes entry).shows = entry.shows := by
  obtain ⟨-, ⟨hsame, -⟩ | ⟨-, kept, rest, -, hrest, hbound⟩⟩ := h.bound_cases
  · rw [hsame]
  · rw [hbound, Plain.shortened_eq hrest]
    rfl

/-! ### Lines -/

theorem jsonlFrom_append (host : HistoryHost) (a b : List JsString) (i : Nat) :
    jsonlFrom host i (a ++ b) = jsonlFrom host i a ++ jsonlFrom host (i + a.length) b := by
  induction a generalizing i with
  | nil => rfl
  | cons raw a ih =>
      have hlength : i + (a.length + 1) = i + 1 + a.length := by omega
      rw [List.cons_append, jsonlFrom, jsonlFrom, ih, List.length_cons, hlength]
      split
      · rfl
      · rfl

/-- The records that are appended, numbered from where the file stopped. -/
def appendedLines (host : HistoryHost) (content appended : JsString) : List JsonlLine :=
  jsonlFrom host (splitLines newline content).1.length (splitRecords appended)

/-- A file that ends with a line keeps its records, whatever comes after. -/
theorem parseJsonlLines_append {host : HistoryHost} {content : JsString}
    (h : content.getLast? = some newline) (appended : JsString) :
    parseJsonlLines host (content ++ appended) =
      parseJsonlLines host content ++ appendedLines host content appended := by
  obtain ⟨init, rfl⟩ := List.getLast?_eq_some_iff.mp h
  have hrest := (@splitLines_ended _ _ newline init).2
  have hblank : ∀ i, jsonlFrom host i [[]] = [] := fun _ => rfl
  have hlines : parseJsonlLines host (init ++ [newline]) =
      jsonlFrom host 0 ((splitLines newline (init ++ [newline])).1.map dropReturn) := by
    rw [parseJsonlLines, splitRecords, hrest, jsonlFrom_append, hblank, List.append_nil]
  rw [hlines, parseJsonlLines, splitRecords, splitLines_append hrest, appendedLines,
    List.map_append, List.append_assoc, jsonlFrom_append, List.length_map, Nat.zero_add]
  rfl

/-- Lines are numbered in order. -/
theorem jsonlFrom_numbered (host : HistoryHost) (raws : List JsString) (i : Nat) :
    (jsonlFrom host i raws).Pairwise (fun a b => a.lineIndex < b.lineIndex) ∧
      ∀ line ∈ jsonlFrom host i raws, i ≤ line.lineIndex ∧ line.lineIndex < i + raws.length := by
  induction raws generalizing i with
  | nil => exact ⟨List.Pairwise.nil, fun _ h => absurd h List.not_mem_nil⟩
  | cons raw raws ih =>
      obtain ⟨hsorted, hrange⟩ := ih (i + 1)
      have hrest : ∀ line ∈ jsonlFrom host (i + 1) raws,
          i + 1 ≤ line.lineIndex ∧ line.lineIndex < i + (raws.length + 1) := by
        intro line hline
        have hbounds := hrange line hline
        omega
      rw [jsonlFrom, List.length_cons]
      split
      · refine ⟨List.pairwise_cons.mpr ⟨?_, hsorted⟩, List.forall_mem_cons.mpr ⟨?_, ?_⟩⟩
        · exact fun line hline => (hrest line hline).1
        · exact ⟨Nat.le_refl i, Nat.lt_add_of_pos_right (Nat.succ_pos _)⟩
        · exact fun line hline => ⟨Nat.le_of_lt (hrest line hline).1, (hrest line hline).2⟩
      · exact ⟨hsorted, fun line hline => ⟨Nat.le_of_lt (hrest line hline).1, (hrest line hline).2⟩⟩

/-! ### Claude -/

section Shows

variable (host : HistoryHost) (sessionId : JsString)

def claudeShows (line : JsonlLine) : Option (JsString × HistoryRole × JsString) :=
  (claudeRole line).map fun role =>
    (entryId host .claude sessionId line.lineIndex, role,
      (extractClaudeText (claudeContent line)).content)

theorem claudeStep_shows (st : ClaudeBuild) (line : JsonlLine) :
    (claudeStep host sessionId st line).entries.map SessionHistoryEntry.shows =
      st.entries.map SessionHistoryEntry.shows ++ (claudeShows host sessionId line).toList := by
  unfold claudeStep claudeShows
  cases hrole : claudeRole line with
  | none => exact (List.append_nil _).symm
  | some role =>
      dsimp only
      split
      · rw [List.map_append]
        rfl
      · rw [List.map_append]
        split
        · rfl
        · rfl

/-- Each record gives what it gives by itself. -/
theorem shows_claude (lines : List JsonlLine) :
    (buildClaudeHistoryEntries host lines sessionId).map SessionHistoryEntry.shows =
      lines.filterMap (claudeShows host sessionId) := by
  have hfold : ∀ (l : List JsonlLine) (st : ClaudeBuild),
      (l.foldl (claudeStep host sessionId) st).entries.map SessionHistoryEntry.shows =
        st.entries.map SessionHistoryEntry.shows ++ l.filterMap (claudeShows host sessionId) := by
    intro l
    induction l with
    | nil => exact fun st => (List.append_nil _).symm
    | cons line l ih =>
        intro st
        rw [List.foldl_cons, ih, claudeStep_shows, List.append_assoc, List.filterMap_cons]
        cases claudeShows host sessionId line <;> rfl
  exact hfold lines _

/-! ### Codex -/

/-- What a record does to the list of entries. -/
inductive CodexMark
  /-- A message: an entry of its own. -/
  | message (role : HistoryRole) (content : JsString)
  /-- A call, or an event that stands for one: part of the assistant's entry. -/
  | call

def codexMark (index : CodexIndex) (line : JsonlLine) : Option CodexMark :=
  match objectField line.record "payload" with
  | none => none
  | some payload =>
      if isCodexMessage line payload then
        (roleField payload).map fun role =>
          .message role (extractCodexMessageText (fieldOf payload "content")).content
      else if isCodexCall line payload then
        if (nonEmpty (stringField payload "call_id")).isSome &&
            (nonEmpty (stringField payload "name")).isSome then some .call else none
      else
        match codexEnrichment line with
        | none => none
        | some enrichment => if index.standsAlone enrichment then some .call else none

/-- Is there an assistant's entry for a call, after the record? -/
def codexAttended (index : CodexIndex) (attended : Bool) (line : JsonlLine) : Bool :=
  match codexMark index line with
  | none => attended
  | some (.message role _) => role = .assistant
  | some .call => true

/-- The entry that the record opens, if it opens one. -/
def codexShows (index : CodexIndex) (attended : Bool) (line : JsonlLine) :
    Option (JsString × HistoryRole × JsString) :=
  match codexMark index line with
  | none => none
  | some (.message role content) =>
      some (entryId host .codex sessionId line.lineIndex, role, content)
  | some .call =>
      if attended then none
      else some (entryId host .codex sessionId line.lineIndex, .assistant, [])

def codexTrace (index : CodexIndex) : Bool → List JsonlLine → List (JsString × HistoryRole × JsString)
  | _, [] => []
  | attended, line :: lines =>
      (codexShows host sessionId index attended line).toList ++
        codexTrace index (codexAttended index attended line) lines

theorem attach_shows (line : JsonlLine) (call : SessionToolCall) (st : CodexBuild) :
    (st.attach host sessionId line call).entries.map SessionHistoryEntry.shows =
        st.entries.map SessionHistoryEntry.shows ++
          (if st.currentAssistant.isSome then none
            else some (entryId host .codex sessionId line.lineIndex, HistoryRole.assistant,
              ([] : JsString))).toList ∧
      (st.attach host sessionId line call).currentAssistant.isSome = true := by
  unfold CodexBuild.attach
  cases hcurrent : st.currentAssistant with
  | none => exact ⟨by rw [List.map_append]; rfl, rfl⟩
  | some owner =>
      have hsame : (st.entries.modify owner (SessionHistoryEntry.addCall call)).map
          SessionHistoryEntry.shows = st.entries.map SessionHistoryEntry.shows := by
        refine List.ext_getElem? fun i => ?_
        rw [List.getElem?_map, List.getElem?_modify, List.getElem?_map]
        cases st.entries[i]? with
        | none => rfl
        | some entry =>
            refine congrArg some ?_
            dsimp only
            split
            · rfl
            · rfl
      refine ⟨?_, rfl⟩
      rw [hsame]
      exact (List.append_nil _).symm

theorem codexStep_shows (index : CodexIndex) (st : CodexBuild) (line : JsonlLine) :
    (codexStep host sessionId index st line).entries.map SessionHistoryEntry.shows =
        st.entries.map SessionHistoryEntry.shows ++
          (codexShows host sessionId index st.currentAssistant.isSome line).toList ∧
      (codexStep host sessionId index st line).currentAssistant.isSome =
        codexAttended index st.currentAssistant.isSome line := by
  unfold codexStep codexShows codexAttended codexMark
  cases hpayload : objectField line.record "payload" with
  | none => exact ⟨(List.append_nil _).symm, rfl⟩
  | some payload =>
      dsimp only
      split
      · cases hrole : roleField payload with
        | none => exact ⟨(List.append_nil _).symm, rfl⟩
        | some role =>
            refine ⟨by rw [List.map_append]; rfl, ?_⟩
            cases role <;> rfl
      split
      · unfold codexToolCall
        cases hid : nonEmpty (stringField payload "call_id") with
        | none => exact ⟨(List.append_nil _).symm, rfl⟩
        | some id =>
            cases hname : nonEmpty (stringField payload "name") with
            | none => exact ⟨(List.append_nil _).symm, rfl⟩
            | some name => exact attach_shows host sessionId line _ _
      · cases henrichment : codexEnrichment line with
        | none => exact ⟨(List.append_nil _).symm, rfl⟩
        | some enrichment =>
            dsimp only
            split
            · exact attach_shows host sessionId line _ _
            · exact ⟨(List.append_nil _).symm, rfl⟩

theorem shows_codex (lines : List JsonlLine) :
    (buildCodexHistoryEntries host lines sessionId).map SessionHistoryEntry.shows =
      codexTrace host sessionId (codexIndex lines) false lines := by
  have hfold : ∀ (index : CodexIndex) (l : List JsonlLine) (st : CodexBuild),
      (l.foldl (codexStep host sessionId index) st).entries.map SessionHistoryEntry.shows =
        st.entries.map SessionHistoryEntry.shows ++
          codexTrace host sessionId index st.currentAssistant.isSome l := by
    intro index l
    induction l with
    | nil => exact fun st => (List.append_nil _).symm
    | cons line l ih =>
        intro st
        obtain ⟨hentries, hcurrent⟩ := codexStep_shows host sessionId index st line
        rw [List.foldl_cons, ih, hentries, hcurrent, codexTrace, List.append_assoc]
  exact hfold _ lines _

theorem codexTrace_append (index : CodexIndex) (attended : Bool) (l m : List JsonlLine) :
    codexTrace host sessionId index attended (l ++ m) =
      codexTrace host sessionId index attended l ++
        codexTrace host sessionId index (l.foldl (codexAttended index) attended) m := by
  induction l generalizing attended with
  | nil => rfl
  | cons line l ih =>
      rw [List.cons_append, codexTrace, codexTrace, ih, List.append_assoc, List.foldl_cons]

end Shows

/-! ### Calls and events -/

/-- The id of a call record. -/
def codexCallId (line : JsonlLine) : Option JsString :=
  match objectField line.record "payload" with
  | none => none
  | some payload =>
      if isCodexCall line payload then nonEmpty (stringField payload "call_id") else none

/-- The id of the call that an event is about. -/
def eventCallId (line : JsonlLine) : Option JsString :=
  (codexEnrichment line).bind fun enrichment => nonEmpty enrichment.callId

theorem codexIndexStep_callIds (index : CodexIndex) (line : JsonlLine) :
    (codexIndexStep index line).callIds = index.callIds ++ (codexCallId line).toList := by
  unfold codexIndexStep codexCallId
  cases objectField line.record "payload" with
  | none => exact (List.append_nil _).symm
  | some payload =>
      dsimp only
      split
      · cases nonEmpty (stringField payload "call_id") with
        | none => exact (List.append_nil _).symm
        | some id => rfl
      split
      · cases nonEmpty (stringField payload "call_id") with
        | none => exact (List.append_nil _).symm
        | some id => exact (List.append_nil _).symm
      · cases codexEnrichment line with
        | none => exact (List.append_nil _).symm
        | some enrichment =>
            dsimp only
            cases nonEmpty enrichment.callId with
            | none => exact (List.append_nil _).symm
            | some id => exact (List.append_nil _).symm

/-- The calls of a file are those of its records. -/
theorem codexIndex_callIds (lines : List JsonlLine) :
    (codexIndex lines).callIds = lines.filterMap codexCallId := by
  have hfold : ∀ (l : List JsonlLine) (index : CodexIndex),
      (l.foldl codexIndexStep index).callIds = index.callIds ++ l.filterMap codexCallId := by
    intro l
    induction l with
    | nil => exact fun index => (List.append_nil _).symm
    | cons line l ih =>
        intro index
        rw [List.foldl_cons, ih, codexIndexStep_callIds, List.append_assoc, List.filterMap_cons]
        cases codexCallId line <;> rfl
  exact hfold lines _

section Compare

variable {host : HistoryHost} {sessionId : JsString} {index index' : CodexIndex}
  {extra : List JsString}

/-- An event has no call among the first ids, and one among the others. -/
def TakenOver (index : CodexIndex) (extra : List JsString) (line : JsonlLine) : Prop :=
  ∃ id, eventCallId line = some id ∧ id ∉ index.callIds ∧ id ∈ extra

/-- With more calls in the file a record does what it did, but for an event that is taken
over. -/
theorem codexMark_more (hids : index'.callIds = index.callIds ++ extra) (line : JsonlLine) :
    codexMark index' line = codexMark index line ∨
      (codexMark index line = some .call ∧ codexMark index' line = none ∧
        TakenOver index extra line) := by
  unfold codexMark
  cases objectField line.record "payload" with
  | none => exact Or.inl rfl
  | some payload =>
      dsimp only
      split
      · exact Or.inl rfl
      split
      · exact Or.inl rfl
      · cases henrichment : codexEnrichment line with
        | none => exact Or.inl rfl
        | some enrichment =>
            dsimp only
            unfold CodexIndex.standsAlone
            cases hid : nonEmpty enrichment.callId with
            | none => exact Or.inl rfl
            | some id =>
                have hevent : eventCallId line = some id := by
                  rw [eventCallId, henrichment]
                  exact hid
                simp only [hids, List.contains_eq_mem, List.mem_append, Bool.not_eq_true',
                  decide_eq_false_iff_not, not_or]
                by_cases hold : id ∈ index.callIds
                · exact Or.inl (by simp [hold])
                · by_cases hnew : id ∈ extra
                  · exact Or.inr ⟨by simp [hold], by simp [hnew], id, hevent, hold, hnew⟩
                  · exact Or.inl (by simp [hold, hnew])

/-- Where there is an assistant's entry already, being taken over changes nothing. -/
theorem codexStep_more (hids : index'.callIds = index.callIds ++ extra) {attended : Bool}
    {line : JsonlLine} (h : attended = false → ¬ TakenOver index extra line) :
    codexShows host sessionId index' attended line = codexShows host sessionId index attended line ∧
      codexAttended index' attended line = codexAttended index attended line := by
  rcases codexMark_more hids line with hsame | ⟨hcall, hnone, htaken⟩
  · unfold codexShows codexAttended
    rw [hsame]
    exact ⟨rfl, rfl⟩
  · cases attended with
    | false => exact absurd htaken (h rfl)
    | true =>
        unfold codexShows codexAttended
        rw [hcall, hnone]
        exact ⟨rfl, rfl⟩

/-- An event that had an entry made for itself is taken over. -/
def OwnerLost (index : CodexIndex) (extra : List JsString) (attended : Bool) (l : List JsonlLine) :
    Prop :=
  ∃ before line after, l = before ++ line :: after ∧
    before.foldl (codexAttended index) attended = false ∧ TakenOver index extra line

theorem ownerLost_cons {attended : Bool} {line : JsonlLine} {l : List JsonlLine} :
    OwnerLost index extra attended (line :: l) ↔
      (attended = false ∧ TakenOver index extra line) ∨
        OwnerLost index extra (codexAttended index attended line) l := by
  constructor
  · rintro ⟨before, line', after, hl, hattended, htaken⟩
    cases before with
    | nil =>
        obtain ⟨rfl, rfl⟩ := List.cons.inj hl
        exact Or.inl ⟨hattended, htaken⟩
    | cons first before =>
        obtain ⟨rfl, rfl⟩ := List.cons.inj hl
        exact Or.inr ⟨before, line', after, rfl, hattended, htaken⟩
  · rintro (⟨hattended, htaken⟩ | ⟨before, line', after, rfl, hattended, htaken⟩)
    · exact ⟨[], line, l, rfl, hattended, htaken⟩
    · exact ⟨line :: before, line', after, rfl, hattended, htaken⟩

/-- **If no owner is lost, the entries stay.** -/
theorem codexTrace_more (hids : index'.callIds = index.callIds ++ extra) {attended : Bool}
    {l : List JsonlLine} (h : ¬ OwnerLost index extra attended l) :
    codexTrace host sessionId index' attended l = codexTrace host sessionId index attended l := by
  induction l generalizing attended with
  | nil => rfl
  | cons line l ih =>
      rw [ownerLost_cons, not_or] at h
      obtain ⟨hshows, hattended⟩ := @codexStep_more host sessionId _ _ _ hids _ _
        fun ha ht => h.1 ⟨ha, ht⟩
      rw [codexTrace, codexTrace, hshows, hattended, ih h.2]

/-- Every entry is named after the line of a record. -/
theorem mem_codexTrace {attended : Bool} {l : List JsonlLine}
    {v : JsString × HistoryRole × JsString} (h : v ∈ codexTrace host sessionId index attended l) :
    ∃ line ∈ l, v.1 = entryId host .codex sessionId line.lineIndex := by
  induction l generalizing attended with
  | nil => exact absurd h List.not_mem_nil
  | cons line l ih =>
      rw [codexTrace] at h
      rcases List.mem_append.mp h with hhead | htail
      · refine ⟨line, List.mem_cons_self, ?_⟩
        rw [Option.mem_toList] at hhead
        unfold codexShows at hhead
        split at hhead
        · exact nomatch hhead
        · obtain rfl := Option.some.inj hhead
          rfl
        · split at hhead
          · exact nomatch hhead
          · obtain rfl := Option.some.inj hhead
            rfl
      · obtain ⟨line', hline', hv⟩ := ih htail
        exact ⟨line', List.mem_cons_of_mem _ hline', hv⟩

/-- An event is no message and no call record. -/
theorem codexMark_event {line : JsonlLine} {id : JsString} (h : eventCallId line = some id) :
    codexMark index line = if id ∈ index.callIds then none else some .call := by
  obtain ⟨enrichment, henrichment, hid⟩ := Option.bind_eq_some_iff.mp h
  obtain ⟨payload, hpayload, htype⟩ : ∃ payload, objectField line.record "payload" = some payload ∧
      (stringField payload "type" = some (js "patch_apply_end") ∨
        stringField payload "type" = some (js "exec_command_end")) := by
    have hevent := henrichment
    unfold codexEnrichment at hevent
    dsimp only at hevent
    split at hevent
    · split at hevent
      · exact nomatch hevent
      · rename_i payload hpayload
        split at hevent
        · rename_i htype
          exact ⟨payload, hpayload, htype⟩
        · exact nomatch hevent
    · exact nomatch hevent
  have hother : ∀ types : List String, (∀ type ∈ types, js "patch_apply_end" ≠ js type ∧
      js "exec_command_end" ≠ js type) → isResponseItem line payload types = false := by
    intro types hne
    unfold isResponseItem
    rw [Bool.and_eq_false_iff, List.any_eq_false]
    refine Or.inr ?_
    intro type hmem hc
    rw [decide_eq_true_eq] at hc
    rcases htype with htype | htype
    · exact (hne type hmem).1 (Option.some.inj (htype.symm.trans hc))
    · exact (hne type hmem).2 (Option.some.inj (htype.symm.trans hc))
  have hmessage : isCodexMessage line payload = false := hother _ (by decide)
  have hcall : isCodexCall line payload = false := hother _ (by decide)
  unfold codexMark
  rw [hpayload]
  dsimp only
  rw [hmessage, hcall, henrichment]
  simp only [Bool.false_eq_true, if_false, CodexIndex.standsAlone, hid, Bool.not_eq_true',
    List.contains_eq_mem, decide_eq_false_iff_not]
  by_cases hmem : id ∈ index.callIds
  · rw [if_neg (not_not.mpr hmem), if_pos hmem]
  · rw [if_pos hmem, if_neg hmem]

/-- **If an owner is lost, the entries are no longer the first ones.** -/
theorem not_prefix_of_ownerLost (hids : index'.callIds = index.callIds ++ extra) {attended : Bool}
    {l : List JsonlLine} {more : List (JsString × HistoryRole × JsString)}
    (hl : (l.map fun line => entryId host .codex sessionId line.lineIndex).Nodup)
    (hmore : ∀ v ∈ more, ∀ line ∈ l, v.1 ≠ entryId host .codex sessionId line.lineIndex)
    (h : OwnerLost index extra attended l) :
    ¬ codexTrace host sessionId index attended l <+:
      codexTrace host sessionId index' attended l ++ more := by
  induction l generalizing attended with
  | nil =>
      obtain ⟨before, line, after, hnil, -⟩ := h
      exact absurd hnil.symm (List.append_ne_nil_of_right_ne_nil _ (List.cons_ne_nil _ _))
  | cons line l ih =>
      rw [List.map_cons, List.nodup_cons] at hl
      by_cases hhead : attended = false ∧ TakenOver index extra line
      · -- the entry of this event is gone, and no other has its name
        obtain ⟨rfl, htaken⟩ := hhead
        obtain ⟨id, hevent, hold, hnew⟩ := htaken
        have hgone : id ∈ index'.callIds := by
          rw [hids]
          exact List.mem_append_right _ hnew
        have hopened : codexShows host sessionId index false line =
            some (entryId host .codex sessionId line.lineIndex, .assistant, []) := by
          rw [codexShows, codexMark_event hevent, if_neg hold]
          rfl
        have hmissing : codexShows host sessionId index' false line = none := by
          rw [codexShows, codexMark_event hevent, if_pos hgone]
        rw [codexTrace, codexTrace, hopened, hmissing]
        intro hprefix
        have hmem := hprefix.subset List.mem_cons_self
        rw [Option.toList_none, List.nil_append] at hmem
        rcases List.mem_append.mp hmem with hlater | hlast
        · obtain ⟨line', hline', hname⟩ := mem_codexTrace hlater
          exact hl.1 (List.mem_map.mpr ⟨line', hline', hname.symm⟩)
        · exact hmore _ hlast line List.mem_cons_self rfl
      · obtain ⟨hshows, hattended⟩ := @codexStep_more host sessionId _ _ _ hids _ _
          fun ha ht => hhead ⟨ha, ht⟩
        have hrest := (ownerLost_cons.mp h).resolve_left hhead
        rw [codexTrace, codexTrace, hshows, hattended, List.append_assoc,
          List.prefix_append_right_inj]
        exact ih hl.2 (fun v hv line' hline' => hmore v hv line' (List.mem_cons_of_mem _ hline')) hrest

end Compare

end HuginAgent
