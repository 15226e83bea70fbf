/-
What the builders make.

The name of an entry is short, its text is under the cap, its date is in the ISO form and it
omits each kind once, in order.  So without its calls it is far from the bound on its bytes
(`Slim.bytes_le`), and bounding it only ever drops calls (`Plain.bound_cases`).
-/
import HuginAgent.History.Bound
import HuginAgent.Js.Nodes
import HuginAgent.Protocol.Schema
import Mathlib.Algebra.Group.Action.Defs

namespace HuginAgent

/-- The entry is short apart from its calls. -/
structure Slim (entry : SessionHistoryEntry) : Prop where
  entryId : entry.entryId.length ≤ 26
  content : entry.content.length ≤ historyContentCap
  createdAt : ∀ t ∈ entry.createdAt, t.length ≤ 27
  ordered : ∀ items ∈ entry.omitted, Ordered items
  counts : ∀ items ∈ entry.omitted, ∀ item ∈ items, item.count < 10 ^ 21

theorem Ordered.length_le {items : List OmittedItem} (h : Ordered items) : items.length ≤ 5 := by
  have hsub : (items.map fun item => item.kind) ⊆ omittedOrder := by
    intro kind _
    cases kind <;> decide
  have hle := (List.subperm_of_subset h.nodup hsub).length_le
  rwa [List.length_map] at hle

/-- The bytes of an array whose elements are short. -/
theorem jsonBytes_arr_le {items : List JsValue} {n k : Nat} (hlength : items.length ≤ n)
    (h : ∀ v ∈ items, jsonBytes v ≤ k) : jsonBytes (.arr items) ≤ 2 + n * (k + 1) := by
  have hsum : (items.map fun v => jsonBytes v + 1).sum ≤ items.length * (k + 1) := by
    have hle := List.sum_le_card_nsmul (items.map fun v => jsonBytes v + 1) (k + 1) (by
      intro m hm
      obtain ⟨v, hv, rfl⟩ := List.mem_map.mp hm
      exact Nat.succ_le_succ (h v hv))
    rwa [List.length_map, smul_eq_mul] at hle
  have hmul := Nat.mul_le_mul_right (k + 1) hlength
  rw [jsonBytes_arr]
  split <;> omega

theorem quotedBytes_le_of_length {s : JsString} {n : Nat} (h : s.length ≤ n) :
    quotedBytes s ≤ 6 * n + 2 := by
  have hle := quotedBytes_le s
  omega

theorem OmittedItem.bytes_le {item : OmittedItem} (h : item.count < 10 ^ 21) :
    jsonBytes (.obj item.fields) ≤ 60 := by
  have hkind : quotedBytes item.kind.text ≤ 10 := by
    cases item.kind <;> decide
  have hcount := jsonBytes_ofNat_le h
  show byteLength (stringifyObject item.fields) ≤ 60
  rw [OmittedItem.fields, byteLength_stringifyObject _ _ rfl, List.map_cons, List.map_cons,
    List.map_nil, entryBytes_key (n := 6) (by decide) rfl, entryBytes_key (n := 7) (by decide) rfl]
  simp only [jsonBytes_str, List.sum_cons, List.sum_nil]
  omega

/-- The bytes of an optional property. -/
theorem entryBytes_optional_le {α : Type} {key : JsString} {f : α → JsValue} {o : Option α} {k n : Nat}
    (hkey : quotedBytes key = k) (h : ∀ a ∈ o, jsonBytes (f a) ≤ n) :
    entryBytes (key, .optional f o) ≤ k + n + 2 := by
  cases o with
  | none => exact Nat.zero_le _
  | some a =>
      have ha := h a rfl
      rw [entryBytes]
      split
      · exact Nat.zero_le _
      · rw [hkey]
        exact Nat.add_le_add_right (Nat.add_le_add_left ha k) 2

/-- **Without calls, what the builders make is far from the bound.** -/
theorem Slim.bytes_le {entry : SessionHistoryEntry} (h : Slim entry) (hcalls : entry.calls = []) :
    historyEntryBytes entry ≤ historyEntryByteMax := by
  have hid := quotedBytes_le_of_length h.entryId
  have hcontent := quotedBytes_le_of_length h.content
  have hrole : quotedBytes entry.role.text ≤ 11 := by
    cases entry.role <;> decide
  have hcreated : jsonBytes ((entry.createdAt.map JsValue.str).getD .null) ≤ 164 := by
    cases hc : entry.createdAt with
    | none => exact (by decide : jsonBytes .null ≤ 164)
    | some t => exact quotedBytes_le_of_length (h.createdAt t hc)
  have htruncated : ∀ b ∈ entry.contentTruncated, jsonBytes (.bool b) ≤ 5 := by
    intro b _
    cases b <;> decide
  have homitted : ∀ items ∈ entry.omitted,
      jsonBytes (.arr (items.map fun item => .obj item.fields)) ≤ 2 + 5 * 61 := by
    intro items hitems
    refine jsonBytes_arr_le ?_ ?_
    · rw [List.length_map]
      exact (h.ordered items hitems).length_le
    · intro v hv
      obtain ⟨item, hitem, rfl⟩ := List.mem_map.mp hv
      exact OmittedItem.bytes_le (h.counts items hitems item hitem)
  have hcreatedKey : ((entry.createdAt.map JsValue.str).getD .null).isUndefined = false := by
    cases entry.createdAt <;> rfl
  have htruncatedKey : entryBytes (js "content_truncated", .optional .bool entry.contentTruncated) ≤
      19 + 5 + 2 := entryBytes_optional_le (by decide) htruncated
  have homittedKey : entryBytes (js "omitted", .optional
      (fun items => .arr (items.map fun item => .obj item.fields)) entry.omitted) ≤
      9 + (2 + 5 * 61) + 2 := entryBytes_optional_le (by decide) homitted
  have hcallsKey : entryBytes (js "tool_calls", .optional
      (fun calls => .arr (calls.map fun call => .obj call.fields)) entry.toolCalls) ≤ 12 + 2 + 2 := by
    refine entryBytes_optional_le (by decide) ?_
    intro calls hmem
    have hnil : calls = [] := by
      rw [SessionHistoryEntry.calls, hmem] at hcalls
      exact hcalls
    rw [hnil]
    decide
  show byteLength (stringifyObject entry.fields) ≤ historyEntryByteMax
  rw [SessionHistoryEntry.fields, byteLength_stringifyObject _ _ rfl]
  simp only [List.map_cons, List.map_nil, List.sum_cons, List.sum_nil]
  rw [entryBytes_key (n := 10) (by decide) rfl, entryBytes_key (n := 6) (by decide) rfl,
    entryBytes_key (n := 9) (by decide) rfl, entryBytes_key (n := 12) (by decide) hcreatedKey,
    historyEntryByteMax]
  simp only [jsonBytes_str]
  rw [historyContentCap] at hcontent
  omega

/-! ### How much a record holds -/

theorem parseRecord_nodes {host : HistoryHost} {raw : JsString} {record : JsObject}
    (h : parseRecord host raw = some record) : JsValue.nodesOfFields record ≤ raw.length := by
  unfold parseRecord at h
  split at h
  · exact nomatch h
  · split at h
    · rename_i rec hparse
      obtain rfl := Option.some.inj h
      obtain ⟨v, hv, hloaded⟩ := Option.map_eq_some_iff.mp hparse
      have hnodes := parse_nodes hv
      rw [← JsValue.nodes_loaded host.number v, hloaded, JsValue.nodes] at hnodes
      omega
    · exact nomatch h

/-- What is known of a line: its text is one of the file's, and it has its place. -/
theorem mem_jsonlFrom {host : HistoryHost} {line : JsonlLine} {raws : List JsString} {i : Nat}
    (h : line ∈ jsonlFrom host i raws) :
    ∃ raw ∈ raws, parseRecord host raw = some line.record := by
  induction raws generalizing i with
  | nil => exact absurd h List.not_mem_nil
  | cons raw raws ih =>
      rw [jsonlFrom] at h
      split at h
      · rename_i record hrecord
        rcases List.mem_cons.mp h with rfl | h
        · exact ⟨raw, List.mem_cons_self, hrecord⟩
        · obtain ⟨raw', hmem, hparse⟩ := ih h
          exact ⟨raw', List.mem_cons_of_mem _ hmem, hparse⟩
      · obtain ⟨raw', hmem, hparse⟩ := ih h
        exact ⟨raw', List.mem_cons_of_mem _ hmem, hparse⟩

theorem jsonlFrom_length_le (host : HistoryHost) (raws : List JsString) (i : Nat) :
    (jsonlFrom host i raws).length ≤ raws.length := by
  induction raws generalizing i with
  | nil => exact Nat.le_refl 0
  | cons raw raws ih =>
      rw [jsonlFrom]
      split
      · exact Nat.succ_le_succ (ih _)
      · exact Nat.le_succ_of_le (ih _)

/-- A line leaves room in the file for the ends of all lines. -/
theorem splitRecords_room {content raw : JsString} (h : raw ∈ splitRecords content) :
    raw.length + (splitRecords content).length ≤ content.length + 1 := by
  obtain ⟨hlines, hrest⟩ := splitLines_room newline content
  have hcount : (splitRecords content).length = (splitLines newline content).1.length + 1 := by
    rw [splitRecords, List.length_append, List.length_map, List.length_singleton]
  rw [hcount]
  rcases List.mem_append.mp h with hline | hlast
  · obtain ⟨line, hmem, rfl⟩ := List.mem_map.mp hline
    have hle := hlines line hmem
    have hdrop : (dropReturn line).length ≤ line.length := by
      unfold dropReturn
      split
      · rw [List.length_dropLast]
        exact Nat.sub_le _ _
      · exact Nat.le_refl _
    omega
  · rw [List.mem_singleton.mp hlast]
    omega

theorem splitRecords_length_le {content raw : JsString} (h : raw ∈ splitRecords content) :
    raw.length ≤ content.length := by
  have hroom := splitRecords_room h
  have hpos := List.length_pos_of_mem h
  omega

/-- No JavaScript string is longer, so nothing in a record can be counted beyond it. -/
def SmallLine (line : JsonlLine) : Prop := JsValue.nodesOfFields line.record ≤ maxSafeInteger

theorem smallLine_of_mem {host : HistoryHost} {content : JsString}
    (hlength : content.length ≤ maxSafeInteger) {line : JsonlLine}
    (h : line ∈ parseJsonlLines host content) : SmallLine line := by
  obtain ⟨raw, hraw, hparse⟩ := mem_jsonlFrom h
  exact Nat.le_trans (parseRecord_nodes hparse)
    (Nat.le_trans (splitRecords_length_le hraw) hlength)

theorem nodes_fieldOf_le (obj : JsObject) (key : String) :
    (fieldOf obj key).nodes ≤ 1 + JsValue.nodesOfFields obj := JsValue.nodes_get_le obj (js key)

theorem nodes_objectField_le {obj value : JsObject} {key : String}
    (h : objectField obj key = some value) :
    JsValue.nodesOfFields value ≤ JsValue.nodesOfFields obj := by
  have hle := nodes_fieldOf_le obj key
  unfold objectField at h
  split at h
  · rename_i rest hfield
    obtain rfl := Option.some.inj h
    rw [hfield, JsValue.nodes] at hle
    omega
  · exact nomatch h

theorem arrayBlocks_length_lt (v : JsValue) : (arrayBlocks v).length < v.nodes := by
  cases v with
  | arr items =>
      have hle := JsValue.length_le_nodesOfItems items
      have hfilter : (arrayBlocks (.arr items)).length ≤ items.length := List.length_filterMap_le _ _
      rw [JsValue.nodes]
      exact Nat.lt_of_le_of_lt (Nat.le_trans hfilter hle) (by omega)
  | obj fields => exact Nat.lt_of_lt_of_le Nat.zero_lt_one (Nat.le_add_right 1 _)
  | _ => exact Nat.zero_lt_one

theorem claudeContent_blocks_le (line : JsonlLine) :
    (arrayBlocks (claudeContent line)).length ≤ JsValue.nodesOfFields line.record := by
  have hblocks := arrayBlocks_length_lt (claudeContent line)
  unfold claudeContent at hblocks ⊢
  cases hmessage : objectField line.record "message" with
  | none =>
      rw [hmessage] at hblocks
      exact Nat.le_trans (Nat.le_of_lt_succ hblocks) (Nat.zero_le _)
  | some message =>
      rw [hmessage] at hblocks
      have hmessageNodes := nodes_objectField_le hmessage
      have hcontent := nodes_fieldOf_le message "content"
      omega

theorem codexContent_blocks_le {line : JsonlLine} {payload : JsObject}
    (hpayload : objectField line.record "payload" = some payload) :
    (arrayBlocks (fieldOf payload "content")).length ≤ JsValue.nodesOfFields line.record := by
  have hblocks := arrayBlocks_length_lt (fieldOf payload "content")
  have hcontent := nodes_fieldOf_le payload "content"
  have hpayloadNodes := nodes_objectField_le hpayload
  omega

/-! ### What the text of a turn gives -/

theorem omittedList_eq (counts : OmittedKind → Nat) :
    omittedList counts =
      (omittedOrder.filter fun kind => 0 < counts kind).map fun kind => ⟨kind, counts kind⟩ := by
  unfold omittedList
  induction omittedOrder with
  | nil => rfl
  | cons kind rest ih =>
      rw [List.flatMap_cons, ih]
      by_cases hkind : 0 < counts kind
      · rw [if_pos hkind, List.filter_cons_of_pos (by simpa using hkind), List.map_cons,
          List.singleton_append]
      · rw [if_neg hkind, List.filter_cons_of_neg (by simpa using hkind), List.nil_append]

theorem ordered_omittedList (counts : OmittedKind → Nat) : Ordered (omittedList counts) := by
  have horder : omittedOrder.Pairwise fun a b => a.rank < b.rank := by decide
  rw [omittedList_eq]
  exact List.pairwise_map.mpr (horder.filter _)

theorem mem_omittedList {counts : OmittedKind → Nat} {item : OmittedItem}
    (h : item ∈ omittedList counts) : 0 < item.count ∧ item.count = counts item.kind := by
  rw [omittedList_eq] at h
  obtain ⟨kind, hkind, rfl⟩ := List.mem_map.mp h
  exact ⟨of_decide_eq_true (List.mem_filter.mp hkind).2, rfl⟩

/-- A text for an entry: under the cap, and counts that are in order. -/
structure PlainText (text : TextExtraction) : Prop where
  content : text.content.length ≤ historyContentCap
  ordered : ∀ items ∈ text.omitted, Ordered items
  counts : ∀ items ∈ text.omitted, ∀ item ∈ items, 0 < item.count ∧ item.count ≤ maxSafeInteger

theorem capString_length_le (value : JsString) (cap : Nat) : (capString value cap).1.length ≤ cap := by
  unfold capString
  split
  · exact Nat.le_trans (Nat.le_of_eq (List.length_take ..)) (Nat.min_le_left _ _)
  · rename_i h
    exact Nat.not_lt.mp h

theorem plainText_extractText {isText isSkipped : Option JsString → Bool} {content : JsValue}
    (h : (arrayBlocks content).length ≤ maxSafeInteger) :
    PlainText (extractText isText isSkipped content) := by
  unfold extractText
  split
  · exact ⟨capString_length_le _ _, fun _ h => (nomatch h), fun _ h => (nomatch h)⟩
  · refine ⟨capString_length_le _ _, ?_, ?_⟩
    · intro items hitems
      obtain rfl := Option.some.inj hitems
      exact ordered_omittedList _
    · intro items hitems item hitem
      obtain rfl := Option.some.inj hitems
      obtain ⟨hpos, heq⟩ := mem_omittedList hitem
      refine ⟨hpos, ?_⟩
      rw [heq]
      exact Nat.le_trans List.countP_le_length (Nat.le_trans (List.length_filter_le _ _) h)

/-! ### What the builders make -/

/-- What is known of an entry before it is bounded. -/
structure Plain (host : HistoryHost) (engine : HistoryEngine) (sessionId : JsString)
    (entry : SessionHistoryEntry) : Prop where
  named : ∃ i, entry.entryId = entryId host engine sessionId i
  content : entry.content.length ≤ historyContentCap
  dated : ∀ t ∈ entry.createdAt, ∃ time : TimeValue, t = time.toISOString
  ordered : ∀ items ∈ entry.omitted, Ordered items
  counts : ∀ items ∈ entry.omitted, ∀ item ∈ items, 0 < item.count ∧ item.count ≤ maxSafeInteger
  calls : entry.calls.length ≤ historyPageMax

section Builders

variable {host : HistoryHost} {engine : HistoryEngine} {sessionId : JsString} {line : JsonlLine}

theorem isoFromUnknown_dated {value : JsValue} :
    ∀ t ∈ isoFromUnknown host value, ∃ time : TimeValue, t = time.toISOString := by
  intro t ht
  obtain ⟨s, -, hs⟩ := Option.bind_eq_some_iff.mp ht
  obtain ⟨time, -, rfl⟩ := Option.map_eq_some_iff.mp hs
  exact ⟨time, rfl⟩

theorem plain_textEntry {role : HistoryRole} {text : TextExtraction} (h : PlainText text) :
    Plain host engine sessionId (textEntry host engine sessionId line role text) where
  named := ⟨line.lineIndex, rfl⟩
  content := h.content
  dated := isoFromUnknown_dated
  ordered items hitems := h.ordered items (Option.mem_filter_iff.mp hitems).1
  counts items hitems := h.counts items (Option.mem_filter_iff.mp hitems).1
  calls := Nat.zero_le _

theorem claudeStep_plain {st : ClaudeBuild} (hline : SmallLine line)
    (h : ∀ entry ∈ st.entries, Plain host .claude sessionId entry) :
    ∀ entry ∈ (claudeStep host sessionId st line).entries, Plain host .claude sessionId entry := by
  have htext : PlainText (extractClaudeText (claudeContent line)) :=
    plainText_extractText (Nat.le_trans (claudeContent_blocks_le line) hline)
  unfold claudeStep
  split
  · exact h
  · rename_i role _
    have hplain := @plain_textEntry host .claude sessionId line role _ htext
    dsimp only
    split
    · exact List.forall_mem_append.mpr ⟨h, List.forall_mem_singleton.mpr hplain⟩
    · refine List.forall_mem_append.mpr ⟨h, List.forall_mem_singleton.mpr ?_⟩
      split
      · exact hplain
      · refine { hplain with calls := ?_ }
        exact Nat.le_trans (Nat.le_of_eq (List.length_take ..)) (Nat.min_le_left _ _)

theorem plain_addCall {entry : SessionHistoryEntry} (call : SessionToolCall)
    (h : Plain host engine sessionId entry) : Plain host engine sessionId (entry.addCall call) :=
  { h with calls := Nat.le_trans (Nat.le_of_eq (List.length_take ..)) (Nat.min_le_left _ _) }

theorem plain_synthetic :
    Plain host .codex sessionId (syntheticAssistantEntry host sessionId line) where
  named := ⟨line.lineIndex, rfl⟩
  content := Nat.zero_le _
  dated := isoFromUnknown_dated
  ordered _ h := nomatch h
  counts _ h := nomatch h
  calls := Nat.zero_le _

theorem attach_plain {st : CodexBuild} (call : SessionToolCall)
    (h : ∀ entry ∈ st.entries, Plain host .codex sessionId entry) :
    ∀ entry ∈ (st.attach host sessionId line call).entries, Plain host .codex sessionId entry := by
  unfold CodexBuild.attach
  split
  · rename_i owner _
    intro entry hentry
    obtain ⟨i, hi⟩ := List.mem_iff_getElem?.mp hentry
    rw [List.getElem?_modify] at hi
    obtain ⟨entry', hentry', rfl⟩ := Option.map_eq_some_iff.mp hi
    have hplain := h entry' (List.mem_of_getElem? hentry')
    split
    · exact plain_addCall call hplain
    · exact hplain
  · exact List.forall_mem_append.mpr
      ⟨h, List.forall_mem_singleton.mpr (plain_addCall call plain_synthetic)⟩

theorem codexStep_plain {index : CodexIndex} {st : CodexBuild} (hline : SmallLine line)
    (h : ∀ entry ∈ st.entries, Plain host .codex sessionId entry) :
    ∀ entry ∈ (codexStep host sessionId index st line).entries,
      Plain host .codex sessionId entry := by
  unfold codexStep
  split
  · exact h
  · rename_i payload hpayload
    split
    · split
      · exact h
      · have htext : PlainText (extractCodexMessageText (fieldOf payload "content")) :=
          plainText_extractText (Nat.le_trans (codexContent_blocks_le hpayload) hline)
        exact List.forall_mem_append.mpr ⟨h, List.forall_mem_singleton.mpr (plain_textEntry htext)⟩
    split
    · split
      · exact h
      · exact attach_plain _ h
    · split
      · exact h
      · split
        · exact attach_plain _ h
        · exact h

/-- What one line keeps, all lines keep. -/
theorem foldl_keeps {σ α : Type} {step : σ → α → σ} {P : σ → Prop} (l : List α) {st : σ} (h : P st)
    (hstep : ∀ st, P st → ∀ a ∈ l, P (step st a)) : P (l.foldl step st) := by
  induction l generalizing st with
  | nil => exact h
  | cons a l ih =>
      exact ih (hstep st h a List.mem_cons_self)
        fun st' h' b hb => hstep st' h' b (List.mem_cons_of_mem _ hb)

/-- The entries of a file before they are bounded. -/
def builtEntries (host : HistoryHost) (engine : HistoryEngine) (content sessionId : JsString) :
    List SessionHistoryEntry :=
  match engine with
  | .claude => buildClaudeHistoryEntries host (parseJsonlLines host content) sessionId
  | .codex => buildCodexHistoryEntries host (parseJsonlLines host content) sessionId

theorem buildHistoryEntries_eq (host : HistoryHost) (engine : HistoryEngine)
    (content sessionId : JsString) : buildHistoryEntries host engine content sessionId =
      (builtEntries host engine content sessionId).map boundHistoryEntryBytes := rfl

/-- **Every entry that is built is plain.** -/
theorem plain_builtEntries {content : JsString} (hlength : content.length ≤ maxSafeInteger) :
    ∀ entry ∈ builtEntries host engine content sessionId, Plain host engine sessionId entry := by
  have hsmall : ∀ line ∈ parseJsonlLines host content, SmallLine line :=
    fun line hline => smallLine_of_mem hlength hline
  cases engine with
  | claude =>
      exact foldl_keeps (P := fun st : ClaudeBuild =>
        ∀ entry ∈ st.entries, Plain host .claude sessionId entry) _
        (fun _ h => absurd h List.not_mem_nil)
        fun st h line hline => claudeStep_plain (hsmall line hline) h
  | codex =>
      exact foldl_keeps (P := fun st : CodexBuild =>
        ∀ entry ∈ st.entries, Plain host .codex sessionId entry) _
        (fun _ h => absurd h List.not_mem_nil)
        fun st h line hline => codexStep_plain (hsmall line hline) h

end Builders

/-! ### What bounding does to them -/

section Bounded

variable {host : HistoryHost} {engine : HistoryEngine} {sessionId : JsString}
  {entry : SessionHistoryEntry}

theorem entryId_length_le (i : Nat) : (entryId host engine sessionId i).length ≤ 26 := by
  have hhash := List.length_take_le 24 (hexText
    (host.sha256 (engine.text ++ nul :: (sessionId ++ nul :: digitUnits i))))
  rw [entryId, List.length_append, shortHash]
  exact Nat.add_le_add (by decide : (js "e_").length ≤ 2) hhash

theorem Plain.slim (h : Plain host engine sessionId entry) : Slim entry where
  entryId := by
    obtain ⟨i, hi⟩ := h.named
    rw [hi]
    exact entryId_length_le i
  content := h.content
  createdAt t ht := by
    obtain ⟨time, rfl⟩ := h.dated t ht
    exact toISOString_length_le time
  ordered := h.ordered
  counts items hitems item hitem := by
    have hle := (h.counts items hitems item hitem).2
    unfold maxSafeInteger at hle
    omega

theorem addOther_counts {items : List OmittedItem} {n bound : Nat} (hn : 0 < n)
    (h : ∀ item ∈ items, 0 < item.count ∧ item.count ≤ bound) :
    ∀ item ∈ addOther items n, 0 < item.count ∧ item.count ≤ bound + n := by
  induction items with
  | nil => exact List.forall_mem_singleton.mpr ⟨hn, Nat.le_add_left n bound⟩
  | cons first rest ih =>
      obtain ⟨hfirst, hrest⟩ := List.forall_mem_cons.mp h
      rw [addOther]
      split
      · refine List.forall_mem_cons.mpr ⟨⟨Nat.add_pos_left hfirst.1 n, ?_⟩, ?_⟩
        · exact Nat.add_le_add_right hfirst.2 n
        · exact fun item hitem => ⟨(hrest item hitem).1, Nat.le_add_right_of_le (hrest item hitem).2⟩
      · exact List.forall_mem_cons.mpr ⟨⟨hfirst.1, Nat.le_add_right_of_le hfirst.2⟩, ih hrest⟩

/-- The omitted items of an entry that has lost calls. -/
theorem Plain.shortened_omitted (h : Plain host engine sessionId entry)
    {kept rest : List SessionToolCall} (hrest : rest ≠ []) {bound : Nat}
    (hbound : ∀ items ∈ entry.omitted, ∀ item ∈ items, item.count ≤ bound) :
    ∃ items, (entry.shortened kept rest).omitted = some items ∧ Ordered items ∧
      (∀ kind, countOf items kind =
        countOf (entry.omitted.getD []) kind + if kind = .other then rest.length else 0) ∧
      ∀ item ∈ items, 0 < item.count ∧ item.count ≤ bound + rest.length := by
  have hpos : 0 < rest.length := List.length_pos_iff.mpr hrest
  have hordered : Ordered (entry.omitted.getD []) := by
    cases homitted : entry.omitted with
    | none => exact List.Pairwise.nil
    | some items => exact h.ordered items homitted
  have hcounts : ∀ item ∈ entry.omitted.getD [], 0 < item.count ∧ item.count ≤ bound := by
    cases homitted : entry.omitted with
    | none => exact fun _ hitem => absurd hitem List.not_mem_nil
    | some items =>
        exact fun item hitem => ⟨(h.counts items homitted item hitem).1, hbound items homitted item hitem⟩
  obtain ⟨hspec, hcountOf⟩ := increment_spec hordered rest.length
  refine ⟨_, ?_, hspec, hcountOf, ?_⟩
  · rw [SessionHistoryEntry.shortened, if_neg hrest, incrementOmittedOther,
      if_neg (Nat.ne_of_gt hpos)]
    rfl
  · intro item hitem
    exact addOther_counts hpos hcounts item ((List.mem_insertionSort _).mp hitem)

theorem Plain.shortened_eq {kept rest : List SessionToolCall} (hrest : rest ≠ []) :
    entry.shortened kept rest = { entry with
      toolCalls := if kept = [] then none else some kept
      omitted := (entry.shortened kept rest).omitted } := by
  have hpos : 0 < rest.length := List.length_pos_iff.mpr hrest
  rw [SessionHistoryEntry.shortened, if_neg hrest, incrementOmittedOther, if_neg (Nat.ne_of_gt hpos)]
  rfl

theorem Plain.slim_shortened (h : Plain host engine sessionId entry)
    {kept rest : List SessionToolCall} (hcalls : entry.calls = kept ++ rest) :
    Slim (entry.shortened kept rest) := by
  by_cases hrest : rest = []
  · rw [SessionHistoryEntry.shortened, if_pos hrest, hrest]
    exact h.slim
  · obtain ⟨items, homitted, hordered, -, hcounts⟩ := @Plain.shortened_omitted _ _ _ _ h kept rest hrest
      maxSafeInteger fun items hitems item hitem => (h.counts items hitems item hitem).2
    have hlength : rest.length ≤ historyPageMax := by
      have hle := h.calls
      rw [hcalls, List.length_append] at hle
      omega
    rw [Plain.shortened_eq hrest, homitted]
    refine { h.slim with ordered := ?_, counts := ?_ }
    · intro items' hitems
      rwa [← Option.some.inj hitems]
    · intro items' hitems item hitem
      obtain rfl := Option.some.inj hitems
      have hle := (hcounts item hitem).2
      unfold maxSafeInteger at hle
      unfold historyPageMax at hlength
      omega

/-- **An entry that a builder makes stays, or loses calls until it fits.** -/
theorem Plain.bound_cases (h : Plain host engine sessionId entry) :
    historyEntryBytes (boundHistoryEntryBytes entry) ≤ historyEntryByteMax ∧
      ((boundHistoryEntryBytes entry = entry ∧ historyEntryBytes entry ≤ historyEntryByteMax) ∨
        historyEntryByteMax < historyEntryBytes entry ∧
          ∃ kept rest, entry.calls = kept ++ rest ∧ rest ≠ [] ∧
            boundHistoryEntryBytes entry = entry.shortened kept rest) := by
  rcases boundHistoryEntryBytes_spec entry with ⟨hsame, hfits⟩ | ⟨hlong, kept, rest, hcalls, hcases⟩
  · rw [hsame]
    exact ⟨hfits, Or.inl ⟨rfl, hfits⟩⟩
  · rcases hcases with ⟨hfits, hbound⟩ | ⟨hstill, hkept, -⟩
    · rw [hbound]
      refine ⟨hfits, Or.inr ⟨hlong, kept, rest, hcalls, ?_, rfl⟩⟩
      rintro rfl
      exact absurd hfits (Nat.not_le.mpr hlong)
    · -- what has no calls left fits
      subst hkept
      have hnone : (entry.shortened [] rest).calls = [] := by
        rw [SessionHistoryEntry.shortened, incrementOmittedOther_calls]
        split
        · rename_i hrest
          rw [hcalls, hrest]
          rfl
        · rfl
      exact absurd ((h.slim_shortened hcalls).bytes_le hnone) (Nat.not_le.mpr hstill)

end Bounded

end HuginAgent
