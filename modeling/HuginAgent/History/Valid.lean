/-
History on the wire: `SessionHistoryEntry` of `protocol/v1/messages.ts`.

Nothing checks a page before it is sent.  Most of an entry is valid however the file came to
be; what the builders copy unchecked are the ids of calls and the dates.  A page is valid
just when the records give each entry a date that has four digits for its year, and each
call that stays an id that is not empty and not too long (`history_valid_iff`).
-/
import HuginAgent.History.Frame
import HuginAgent.History.Turns

namespace HuginAgent

/-! ### The schema -/

def sessionToolCallSchema : Schema :=
  .strictObject
    [(js "id", .string isId),
      (js "name", .string fun _ => true),
      (js "input", .optional (.string fun _ => true)),
      (js "input_truncated", .optional .boolean),
      (js "output", .optional (.string fun _ => true)),
      (js "output_truncated", .optional .boolean),
      (js "status", .optional (.oneOf ["ok", "error"]))]

def omittedSchema : Schema :=
  .strictObject
    [(js "kind", .oneOf ["image", "document", "thinking", "fallback", "other"]),
      (js "count", .posInt)]

/-- `isIso` is `z.string().datetime({ offset: true })`. -/
def sessionHistoryEntrySchema (isIso : JsString → Bool) : Schema :=
  .strictObject
    [(js "entry_id", .string isId),
      (js "role", .oneOf ["user", "assistant"]),
      (js "content", .string fun _ => true),
      (js "content_truncated", .optional .boolean),
      (js "tool_calls", .optional (.array sessionToolCallSchema arrayMax)),
      (js "omitted", .optional (.array omittedSchema arrayMax)),
      (js "created_at", .nullable (.string isIso))]

/-- An optional property is let through when it is missing or its value is. -/
theorem optional_optional {α : Type} {schema : Schema} {f : α → JsValue} {o : Option α}
    (hundefined : ∀ a, (f a).isUndefined = false) :
    Schema.optional schema (.optional f o) = true ↔ ∀ a ∈ o, schema (f a) = true := by
  cases o with
  | none => exact ⟨fun _ _ h => (nomatch h), fun _ => rfl⟩
  | some a =>
      show Schema.optional schema (f a) = true ↔ _
      rw [Schema.optional_of_defined (hundefined a)]
      exact ⟨fun h b hb => Option.some.inj hb ▸ h, fun h => h a rfl⟩

theorem optional_text (o : Option JsString) :
    Schema.optional (.string fun _ => true) (.optional .str o) = true := by
  cases o <;> rfl

theorem optional_flag (o : Option Bool) :
    Schema.optional .boolean (.optional .bool o) = true := by
  cases o <;> rfl

theorem optional_array {α : Type} (item : Schema) (max : Nat) (f : α → JsValue)
    (o : Option (List α)) :
    Schema.optional (.array item max) (.optional (fun l => .arr (l.map f)) o) = true ↔
      ∀ l ∈ o, l.length ≤ max ∧ ∀ a ∈ l, item (f a) = true := by
  rw [optional_optional fun _ => rfl]
  exact forall₂_congr fun l _ => Schema.array_map item max f l

/-- The order of a schema's properties does not matter. -/
theorem strictObject_perm {fields fields' : List (JsString × Schema)} (h : fields.Perm fields')
    (v : JsValue) : Schema.strictObject fields v = Schema.strictObject fields' v := by
  cases v with
  | obj o =>
      have hkeys : ∀ key, (fields.any fun f => f.1 = key) = fields'.any fun f => f.1 = key :=
        fun key => h.any_eq
      simp only [Schema.strictObject, hkeys, h.all_eq]
  | _ => rfl

theorem sessionToolCallSchema_iff (call : SessionToolCall) :
    sessionToolCallSchema (.obj call.fields) = true ↔ isId call.id = true := by
  have h := Schema.strictObject_iff
    [⟨js "id", .string isId, some (.str call.id)⟩,
      ⟨js "name", .string fun _ => true, some (.str call.name)⟩,
      ⟨js "input", .optional (.string fun _ => true), some (.optional .str call.input)⟩,
      ⟨js "input_truncated", .optional .boolean, some (.optional .bool call.inputTruncated)⟩,
      ⟨js "output", .optional (.string fun _ => true), some (.optional .str call.output)⟩,
      ⟨js "output_truncated", .optional .boolean, some (.optional .bool call.outputTruncated)⟩,
      ⟨js "status", .optional (.oneOf ["ok", "error"]),
        some (.optional (fun status => .str status.text) call.status)⟩]
    (by simp only [List.map_cons, List.map_nil]; decide)
  have hstatus : Schema.optional (.oneOf ["ok", "error"])
      (.optional (fun status => .str status.text) call.status) = true := by
    rw [optional_optional fun _ => rfl]
    intro status _
    cases status <;> decide
  simp only [List.forall_mem_cons, List.not_mem_nil, false_implies, implies_true, and_true,
    Option.getD_some, Schema.string_str, optional_text, optional_flag, hstatus] at h
  exact h

theorem omittedSchema_iff (item : OmittedItem) :
    omittedSchema (.obj item.fields) = true ↔ 0 < item.count ∧ item.count ≤ maxSafeInteger := by
  have h := Schema.strictObject_iff
    [⟨js "kind", .oneOf ["image", "document", "thinking", "fallback", "other"],
        some (.str item.kind.text)⟩,
      ⟨js "count", .posInt, some (.ofNat item.count)⟩]
    (by simp only [List.map_cons, List.map_nil]; decide)
  have hkind : Schema.oneOf ["image", "document", "thinking", "fallback", "other"]
      (.str item.kind.text) = true := by
    cases item.kind <;> decide
  simp only [List.forall_mem_cons, List.not_mem_nil, false_implies, implies_true, and_true,
    Option.getD_some, hkind, true_and, Schema.posInt_ofNat] at h
  exact h

/-- What it takes for an entry to be valid. -/
structure ValidEntry (isIso : JsString → Bool) (entry : SessionHistoryEntry) : Prop where
  entryId : isId entry.entryId = true
  toolCalls : entry.calls.length ≤ arrayMax ∧ ∀ call ∈ entry.calls, isId call.id = true
  omitted : ∀ items ∈ entry.omitted, items.length ≤ arrayMax ∧
    ∀ item ∈ items, 0 < item.count ∧ item.count ≤ maxSafeInteger
  createdAt : ∀ t ∈ entry.createdAt, isIso t = true

theorem sessionHistoryEntrySchema_iff (isIso : JsString → Bool) (entry : SessionHistoryEntry) :
    sessionHistoryEntrySchema isIso (.obj entry.fields) = true ↔ ValidEntry isIso entry := by
  have hperm : sessionHistoryEntrySchema isIso (.obj entry.fields) = Schema.strictObject
      [(js "entry_id", .string isId),
        (js "role", .oneOf ["user", "assistant"]),
        (js "content", .string fun _ => true),
        (js "created_at", .nullable (.string isIso)),
        (js "content_truncated", .optional .boolean),
        (js "omitted", .optional (.array omittedSchema arrayMax)),
        (js "tool_calls", .optional (.array sessionToolCallSchema arrayMax))]
      (.obj entry.fields) := by
    have horder : ∀ {α : Type} (a b c d : α), [a, b, c, d].Perm [d, a, c, b] := fun a b c d =>
      (@List.perm_append_comm _ [a, b, c] [d]).trans (.cons d (.cons a (.swap c b [])))
    exact strictObject_perm (.cons _ (.cons _ (.cons _ (horder _ _ _ _)))) _
  have h := Schema.strictObject_iff
    [⟨js "entry_id", .string isId, some (.str entry.entryId)⟩,
      ⟨js "role", .oneOf ["user", "assistant"], some (.str entry.role.text)⟩,
      ⟨js "content", .string fun _ => true, some (.str entry.content)⟩,
      ⟨js "created_at", .nullable (.string isIso),
        some ((entry.createdAt.map JsValue.str).getD .null)⟩,
      ⟨js "content_truncated", .optional .boolean,
        some (.optional .bool entry.contentTruncated)⟩,
      ⟨js "omitted", .optional (.array omittedSchema arrayMax),
        some (.optional (fun items => .arr (items.map fun item => .obj item.fields)) entry.omitted)⟩,
      ⟨js "tool_calls", .optional (.array sessionToolCallSchema arrayMax),
        some (.optional (fun calls => .arr (calls.map fun call => .obj call.fields))
          entry.toolCalls)⟩]
    (by simp only [List.map_cons, List.map_nil]; decide)
  have hrole : Schema.oneOf ["user", "assistant"] (.str entry.role.text) = true := by
    cases entry.role <;> decide
  have hcreated : Schema.nullable (.string isIso)
      ((entry.createdAt.map JsValue.str).getD .null) = true ↔
        ∀ t ∈ entry.createdAt, isIso t = true := by
    cases entry.createdAt with
    | none => exact ⟨fun _ _ ht => (nomatch ht), fun _ => rfl⟩
    | some t => exact ⟨fun ht t' ht' => Option.some.inj ht' ▸ ht, fun ht => ht t rfl⟩
  simp only [List.forall_mem_cons, List.not_mem_nil, false_implies, implies_true, and_true,
    Option.getD_some, Schema.string_str, optional_flag, hrole, hcreated, optional_array,
    omittedSchema_iff, sessionToolCallSchema_iff, true_and] at h
  rw [hperm]
  refine h.trans ⟨?_, ?_⟩
  · rintro ⟨hid, hdate, homitted, hcalls⟩
    refine ⟨hid, ?_, homitted, hdate⟩
    unfold SessionHistoryEntry.calls
    cases hc : entry.toolCalls with
    | none => exact ⟨Nat.zero_le _, fun _ h => absurd h List.not_mem_nil⟩
    | some calls => exact hcalls calls hc
  · intro hv
    refine ⟨hv.entryId, hv.createdAt, hv.omitted, ?_⟩
    intro calls hcalls
    have hvalid := hv.toolCalls
    rw [SessionHistoryEntry.calls, hcalls] at hvalid
    exact hvalid

/-! ### The calls that stay -/

/-- Dropping calls from the end stops at the longest list that fits. -/
theorem dropToolCalls_longest (start : SessionHistoryEntry) (n : Nat)
    {kept rest : List SessionToolCall} (hcalls : start.calls = kept ++ rest)
    (hfits : historyEntryBytes (incrementOmittedOther
      (if rest = [] then start else start.withCalls kept) (n + rest.length)) ≤ historyEntryByteMax) :
    kept.length ≤ (dropToolCalls start n).bounded.calls.length := by
  fun_induction dropToolCalls start n generalizing rest with
  | case1 start n h candidate =>
      have hsame : candidate.calls = start.calls := by
        show (if 0 < n then incrementOmittedOther start n else start).calls = start.calls
        split
        · exact incrementOmittedOther_calls start n
        · rfl
      rw [hsame, hcalls, List.length_append]
      exact Nat.le_add_right _ _
  | case2 start n h candidate hlong =>
      rename_i ih
      rcases List.eq_nil_or_concat rest with rfl | ⟨init, last, rfl⟩
      · -- with all calls it is the candidate that does not fit
        refine absurd hfits ?_
        rw [if_pos rfl]
        have hcandidate : candidate = incrementOmittedOther start n := by
          show (if 0 < n then incrementOmittedOther start n else start) = _
          split
          · rfl
          · rename_i hn
            rw [Nat.eq_zero_of_not_pos hn, incrementOmittedOther_zero]
        rwa [hcandidate] at hlong
      · rw [List.concat_eq_append] at hcalls hfits
        have hinit : start.calls.dropLast = kept ++ init := by
          rw [hcalls, ← List.append_assoc, List.dropLast_concat]
        refine ih (by rw [SessionHistoryEntry.calls_withCalls, hinit]) ?_
        rw [if_neg (List.concat_ne_nil _ _), List.length_append, List.length_singleton] at hfits
        have hcount : n + 1 + init.length = n + (init.length + 1) := by omega
        rw [hcount]
        split
        · rename_i hnil
          rw [hnil, List.append_nil] at hinit
          rwa [hinit]
        · exact hfits
  | case3 start n h =>
      have hnil := List.eq_nil_of_length_eq_zero (Nat.eq_zero_of_not_pos h)
      rw [hnil] at hcalls
      rw [(List.append_eq_nil_iff.mp hcalls.symm).1]
      exact Nat.zero_le _

theorem truncate_calls (entry : SessionHistoryEntry) :
    (truncateEntryContentToByteLimit entry).calls = entry.calls := by
  obtain ⟨n, heq, -⟩ := truncateEntryContentToByteLimit_spec entry
  rw [heq]
  rfl

theorem bound_longest {entry : SessionHistoryEntry} {kept rest : List SessionToolCall}
    (hcalls : entry.calls = kept ++ rest)
    (hfits : historyEntryBytes (entry.shortened kept rest) ≤ historyEntryByteMax) :
    kept.length ≤ (boundHistoryEntryBytes entry).calls.length := by
  have hdropped := dropToolCalls_longest entry 0 hcalls (by rwa [Nat.zero_add])
  have hmore : ∀ (bounded : SessionHistoryEntry) n (b : Bool),
      (if b then incrementOmittedOther bounded n else bounded).calls = bounded.calls := by
    intro bounded n b
    split
    · exact incrementOmittedOther_calls bounded n
    · rfl
  have hcut : ∀ bounded : SessionHistoryEntry,
      (if historyEntryBytes bounded ≤ historyEntryByteMax then bounded
        else truncateEntryContentToByteLimit bounded).calls = bounded.calls := by
    intro bounded
    split
    · rfl
    · exact truncate_calls bounded
  unfold boundHistoryEntryBytes
  split
  · rw [hcalls, List.length_append]
    exact Nat.le_add_right _ _
  · dsimp only
    rwa [hcut, hmore]

/-- **The calls of a bounded entry are those that it fits with.** -/
theorem mem_bound_calls {host : HistoryHost} {engine : HistoryEngine} {sessionId : JsString}
    {entry : SessionHistoryEntry} (h : Plain host engine sessionId entry) (call : SessionToolCall) :
    call ∈ (boundHistoryEntryBytes entry).calls ↔
      ∃ kept rest, entry.calls = kept ++ rest ∧ call ∈ kept ∧
        historyEntryBytes (entry.shortened kept rest) ≤ historyEntryByteMax := by
  have hcalls : ∃ kept rest, entry.calls = kept ++ rest ∧
      (boundHistoryEntryBytes entry).calls = kept ∧
        historyEntryBytes (entry.shortened kept rest) ≤ historyEntryByteMax := by
    obtain ⟨hbytes, ⟨hsame, hfits⟩ | ⟨-, kept, rest, hcalls, hrest, hbound⟩⟩ := h.bound_cases
    · refine ⟨entry.calls, [], (List.append_nil _).symm, by rw [hsame], ?_⟩
      rw [SessionHistoryEntry.shortened, if_pos rfl, List.length_nil, incrementOmittedOther_zero]
      exact hfits
    · rw [hbound] at hbytes
      refine ⟨kept, rest, hcalls, ?_, hbytes⟩
      rw [hbound, SessionHistoryEntry.shortened, incrementOmittedOther_calls, if_neg hrest,
        SessionHistoryEntry.calls_withCalls]
  constructor
  · intro hmem
    obtain ⟨kept, rest, hsplit, hkept, hfits⟩ := hcalls
    exact ⟨kept, rest, hsplit, hkept ▸ hmem, hfits⟩
  · rintro ⟨kept, rest, hsplit, hmem, hfits⟩
    have hlongest := bound_longest hsplit hfits
    obtain ⟨kept', rest', hsplit', hkept', -⟩ := hcalls
    rw [hkept'] at hlongest ⊢
    have hprefix : kept <+: kept' :=
      List.prefix_of_prefix_length_le ⟨rest, hsplit.symm⟩ ⟨rest', hsplit'.symm⟩ hlongest
    exact hprefix.subset hmem

/-! ### When the entries are valid -/

/-- What is relied on in the test of a timestamp: a date in the ISO form passes when its year
has four digits, and not with a sign. -/
def ChecksDates (isIso : JsString → Bool) : Prop :=
  ∀ t : TimeValue, isIso t.toISOString = true ↔ 0 ≤ t.year ∧ t.year ≤ 9999

/-- The call is one of the first 256 of its turn, and the entry is short enough with the calls
up to it. -/
def HistoryTurn.Keeps (turn : HistoryTurn) (call : SessionToolCall) : Prop :=
  ∃ kept rest, turn.calls.take historyPageMax = kept ++ rest ∧ call ∈ kept ∧
    historyEntryBytes (turn.built.shortened kept rest) ≤ historyEntryByteMax

/-- The condition on the records of a file. -/
structure RecordsValid (host : HistoryHost) (engine : HistoryEngine) (content sessionId : JsString) :
    Prop where
  /-- No record that opens a turn has a timestamp that is read as a year before 0 or after 9999. -/
  dated : ∀ turn ∈ fileTurns host sessionId engine content, ∀ s time,
    stringField turn.opened.record "timestamp" = some s → host.parseDate s = some time →
      0 ≤ time.year ∧ time.year ≤ 9999
  /-- No call that stays has an id that is empty or too long. -/
  named : ∀ turn ∈ fileTurns host sessionId engine content, ∀ call, turn.Keeps call →
    isId call.id = true

/-- Every entry of every page is valid. -/
def PagesValid (isIso : JsString → Bool) (host : HistoryHost) (engine : HistoryEngine)
    (content sessionId : JsString) : Prop :=
  ∀ opts scope page, readSessionHistory host engine content sessionId opts scope = .ok page →
    ∀ entry ∈ page.entries, sessionHistoryEntrySchema isIso (.obj entry.fields) = true

section Valid

variable {isIso : JsString → Bool} {host : HistoryHost} {engine : HistoryEngine}
  {content sessionId : JsString}

/-- The pages of a session are made of its entries, and each entry is on one. -/
theorem pagesValid_iff :
    PagesValid isIso host engine content sessionId ↔
      ∀ entry ∈ buildHistoryEntries host engine content sessionId, ValidEntry isIso entry := by
  constructor
  · intro h entry hentry
    obtain ⟨i, hi, rfl⟩ := List.mem_iff_getElem.mp hentry
    have hcursor := @cursorAt_encode host.sha256 sessionId
      (buildHistoryEntries host engine content sessionId) (i + 1) hi
    have hof := @pageOf_pageAt host.sha256 _ sessionId none (i + 1) hi
    have hstart := hof.start_lt (Nat.succ_pos i)
    refine (sessionHistoryEntrySchema_iff isIso _).mp (h { cursor := some _, limit := none } sessionId
      _ (paginateHistory_ok_iff.mpr ⟨i + 1, hcursor, rfl⟩) _ ?_)
    rw [hof.block]
    refine List.mem_iff_getElem?.mpr ⟨i - (historyPager none).start
      (buildHistoryEntries host engine content sessionId) (i + 1), ?_⟩
    rw [List.getElem?_drop, List.getElem?_take]
    have hplace : (historyPager none).start (buildHistoryEntries host engine content sessionId)
        (i + 1) + (i - (historyPager none).start
          (buildHistoryEntries host engine content sessionId) (i + 1)) = i := by omega
    rw [hplace, if_pos (Nat.lt_succ_self i), List.getElem?_eq_getElem hi]
  · intro h opts scope page hpage entry hentry
    obtain ⟨b, hcursor, rfl⟩ := paginateHistory_ok_iff.mp hpage
    have hof := @pageOf_pageAt host.sha256 _ scope opts.limit b hcursor.le
    rw [hof.block] at hentry
    exact (sessionHistoryEntrySchema_iff isIso entry).mpr
      (h entry (List.mem_of_mem_take (List.mem_of_mem_drop hentry)))

/-- What is omitted is counted within the bounds, with the calls that are dropped. -/
theorem Plain.bound_omitted {entry : SessionHistoryEntry} (h : Plain host engine sessionId entry)
    (hroom : ∀ items ∈ entry.omitted, ∀ item ∈ items,
      item.count + entry.calls.length ≤ maxSafeInteger) :
    ∀ items ∈ (boundHistoryEntryBytes entry).omitted, items.length ≤ arrayMax ∧
      ∀ item ∈ items, 0 < item.count ∧ item.count ≤ maxSafeInteger := by
  intro items hitems
  obtain ⟨-, ⟨hsame, -⟩ | ⟨-, kept, rest, hcalls, hrest, hbound⟩⟩ := h.bound_cases
  · rw [hsame] at hitems
    exact ⟨Nat.le_trans (h.ordered items hitems).length_le (by decide), h.counts items hitems⟩
  · have hlength : rest.length ≤ entry.calls.length := by
      rw [hcalls, List.length_append]
      exact Nat.le_add_left _ _
    have hfew : entry.calls.length ≤ maxSafeInteger := Nat.le_trans h.calls (by decide)
    have hspare : ∀ items ∈ entry.omitted, ∀ item ∈ items,
        item.count ≤ maxSafeInteger - rest.length := by
      intro items hitems item hitem
      have hle := hroom items hitems item hitem
      omega
    obtain ⟨items', hshortened, hordered, -, hcounts⟩ :=
      @Plain.shortened_omitted _ _ _ _ h kept rest hrest _ hspare
    rw [hbound, hshortened] at hitems
    obtain rfl := Option.some.inj hitems
    rw [Nat.sub_add_cancel (Nat.le_trans hlength hfew)] at hcounts
    exact ⟨Nat.le_trans hordered.length_le (by decide), hcounts⟩

/-- **A built entry is valid when its date is and its calls are.** -/
theorem validEntry_iff (hiso : ChecksDates isIso) (hlength : content.length ≤ maxSafeInteger)
    {turn : HistoryTurn} (hturn : turn ∈ fileTurns host sessionId engine content) :
    ValidEntry isIso (boundHistoryEntryBytes turn.built) ↔
      (∀ s time, stringField turn.opened.record "timestamp" = some s →
        host.parseDate s = some time → 0 ≤ time.year ∧ time.year ≤ 9999) ∧
      ∀ call, turn.Keeps call → isId call.id = true := by
  have hplain : Plain host engine sessionId turn.built := by
    refine plain_builtEntries hlength _ ?_
    rw [builtEntries_eq]
    exact List.mem_map_of_mem hturn
  have hwithin := fileTurns_within engine content turn hturn
  have hbounded := hplain.bounded
  obtain ⟨hentryId, -, hcreated, -⟩ := hbounded.same
  have hkeeps : ∀ call, call ∈ (boundHistoryEntryBytes turn.built).calls ↔ turn.Keeps call := by
    intro call
    rw [mem_bound_calls hplain, calls_built]
    exact Iff.rfl
  have hdate : (∀ t ∈ (boundHistoryEntryBytes turn.built).createdAt, isIso t = true) ↔
      ∀ s time, stringField turn.opened.record "timestamp" = some s →
        host.parseDate s = some time → 0 ≤ time.year ∧ time.year ≤ 9999 := by
    have hdated : (boundHistoryEntryBytes turn.built).createdAt =
        isoFromUnknown host (fieldOf turn.opened.record "timestamp") := hcreated.trans hwithin.createdAt
    rw [hdated]
    constructor
    · intro h s time hs htime
      refine (hiso time).mp (h _ ?_)
      rw [isoFromUnknown, ← stringField, hs, Option.bind_some, htime]
      rfl
    · intro h t ht
      obtain ⟨s, hs, hparse⟩ := Option.bind_eq_some_iff.mp ht
      obtain ⟨time, htime, rfl⟩ := Option.map_eq_some_iff.mp hparse
      exact (hiso time).mpr (h s time hs htime)
  constructor
  · intro h
    exact ⟨hdate.mp h.createdAt, fun call hcall => h.toolCalls.2 call ((hkeeps call).mpr hcall)⟩
  · rintro ⟨hdated, hnamed⟩
    refine ⟨?_, ⟨?_, fun call hcall => hnamed call ((hkeeps call).mp hcall)⟩, ?_, hdate.mpr hdated⟩
    · obtain ⟨i, hi⟩ := hplain.named
      have hle := @entryId_length_le host engine sessionId i
      have hpos : 2 ≤ (entryId host engine sessionId i).length := by
        rw [entryId, List.length_append]
        exact Nat.le_add_right 2 _
      rw [hentryId, hi, isId, Bool.and_eq_true, decide_eq_true_iff, decide_eq_true_iff]
      omega
    · exact Nat.le_trans hbounded.calls.length_le (Nat.le_trans hplain.calls (by decide))
    · refine hplain.bound_omitted ?_
      intro items hitems item hitem
      have hle := hwithin.counts items hitems item hitem
      have hcalls : turn.built.calls.length ≤ turn.calls.length := by
        rw [calls_built]
        exact List.length_take_le' _ _
      omega

/-- **The pages of a file are valid just when its records give valid dates and ids.** -/
theorem history_valid_iff (isIso : JsString → Bool) (host : HistoryHost) (engine : HistoryEngine)
    (content sessionId : JsString) (hiso : ChecksDates isIso)
    (hlength : content.length ≤ maxSafeInteger) :
    PagesValid isIso host engine content sessionId ↔ RecordsValid host engine content sessionId := by
  rw [pagesValid_iff, buildHistoryEntries_eq, builtEntries_eq, List.map_map, List.forall_mem_map]
  simp only [Function.comp_apply]
  constructor
  · intro h
    refine ⟨?_, ?_⟩
    · intro turn hturn
      exact ((validEntry_iff hiso hlength hturn).mp (h turn hturn)).1
    · intro turn hturn
      exact ((validEntry_iff hiso hlength hturn).mp (h turn hturn)).2
  · intro h turn hturn
    exact (validEntry_iff hiso hlength hturn).mpr ⟨h.dated turn hturn, h.named turn hturn⟩

end Valid

/-! ### An event whose call has an empty id -/

/-- A test of timestamps by their first unit. -/
def startsWithDigit (s : JsString) : Bool := s.head?.any isDigit

theorem padded_head (width n : Nat) : ∃ u rest, padded width n = u :: rest ∧ isDigit u = true := by
  unfold padded
  cases width - (digitUnits n).length with
  | zero =>
      obtain ⟨u, rest, hunits⟩ := List.exists_cons_of_ne_nil (digitUnits_ne_nil n)
      refine ⟨u, rest, hunits, digitUnits_isDigit n u ?_⟩
      rw [hunits]
      exact List.mem_cons_self
  | succ k => exact ⟨unit '0', _, rfl, rfl⟩

theorem checksDates_startsWithDigit : ChecksDates startsWithDigit := by
  intro t
  have hyearFirst : isoYear t.year <+: t.toISOString := by
    unfold TimeValue.toISOString
    simp only [List.append_assoc]
    exact List.prefix_append _ _
  obtain ⟨rest, hrest⟩ := hyearFirst
  rw [startsWithDigit, ← hrest]
  unfold isoYear
  by_cases hyear : 0 ≤ t.year ∧ t.year ≤ 9999
  · obtain ⟨u, rest, hpadded, hdigit⟩ := padded_head 4 t.year.toNat
    rw [if_pos hyear, hpadded, List.cons_append, List.head?_cons]
    exact iff_of_true hdigit hyear
  · rw [if_neg hyear]
    refine iff_of_false ?_ hyear
    split
    · exact Bool.false_ne_true
    · exact Bool.false_ne_true

theorem history_valid_sample :
    PagesValid startsWithDigit sampleHost .codex (eventLine ++ callLine) (js "s") ↔
      RecordsValid sampleHost .codex (eventLine ++ callLine) (js "s") :=
  history_valid_iff startsWithDigit sampleHost .codex (eventLine ++ callLine) (js "s")
    checksDates_startsWithDigit (by decide +kernel)

def namelessLine : JsString :=
  stringifyObject [(js "type", .lit "event_msg"),
    (js "payload", .obj [(js "type", .lit "exec_command_end"), (js "call_id", .lit "")])] ++ [newline]

/-- The call that the event stands for has no name on the wire. -/
theorem nameless_call :
    ¬ PagesValid startsWithDigit sampleHost .codex namelessLine (js "s") := by
  have hcall : ∃ entry ∈ buildHistoryEntries sampleHost .codex namelessLine (js "s"),
      ∃ call ∈ entry.calls, isId call.id = false := by decide +kernel
  rw [pagesValid_iff]
  intro h
  obtain ⟨entry, hentry, call, hmem, hinvalid⟩ := hcall
  rw [(h entry hentry).toolCalls.2 call hmem] at hinvalid
  exact Bool.false_ne_true hinvalid.symm

end HuginAgent
