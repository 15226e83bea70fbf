/-
A list of sessions on the wire: `SessionListResponse` of `protocol/v1/messages.ts`.

A page holds at most 256 sessions, and that is all that the pager counts.  What a session's file
says of it is copied: its branch and version at any length, and its date in whatever year.  So a
response is valid just when the dates of its page have four digits for their year, and a frame
just when the texts of its page leave the room for it (`list_response_iff`).
-/
import HuginAgent.History.Valid
import HuginAgent.Listing.Scope

namespace HuginAgent

/-! ### The messages -/

/-- `null` where there is no text. -/
def nullableText (s : Option JsString) : JsValue := (s.map JsValue.str).getD .null

def SessionInfo.fields (info : SessionInfo) : JsObject :=
  [(js "handle", .str info.handle),
    (js "session_id", .str info.sessionId),
    (js "engine", .str info.engine.text),
    (js "cwd", .str info.cwd),
    (js "git_branch", nullableText info.gitBranch),
    (js "cli_version", nullableText info.cliVersion),
    (js "title", .str info.title),
    (js "created_at", .str info.createdAt),
    (js "updated_at", .str info.updatedAt),
    (js "active", .bool info.active),
    (js "is_subagent", .bool info.isSubagent),
    (js "msg_count", .ofNat info.msgCount)]

/-- The answer to `session.list.request`. -/
def sessionListResponse (requestId : JsString) (result : SessionListResult) (e : Envelope) :
    JsObject :=
  e.fields ++ [(js "type", .lit "session.list.response"), (js "request_id", .str requestId),
    (js "sessions", .arr (result.sessions.map fun info => .obj info.fields)),
    (js "next_cursor", nullableText result.nextCursor),
    (js "truncated", .bool result.truncated)]

def sessionInfoSchema (isIso : JsString → Bool) : Schema :=
  .strictObject
    [(js "handle", .string isId),
      (js "session_id", .string isId),
      (js "engine", .oneOf ["claude", "codex"]),
      (js "cwd", .string fun _ => true),
      (js "git_branch", .nullable (.string fun _ => true)),
      (js "cli_version", .nullable (.string fun _ => true)),
      (js "title", .string fun _ => true),
      (js "created_at", .string isIso),
      (js "updated_at", .string isIso),
      (js "active", .boolean),
      (js "is_subagent", .boolean),
      (js "msg_count", .posInt)]

def sessionListResponseSchema (isIso : JsString → Bool) : Schema :=
  .strictObject
    [(js "id", .string isId),
      (js "ts", .string isIso),
      (js "type", .literal "session.list.response"),
      (js "request_id", .string isId),
      (js "sessions", .array (sessionInfoSchema isIso) arrayMax),
      (js "next_cursor", .optional (.nullable (.string fun _ => true))),
      (js "truncated", .boolean)]

/-- What it takes for a session to be valid. -/
structure ValidInfo (isIso : JsString → Bool) (info : SessionInfo) : Prop where
  handle : isId info.handle = true
  sessionId : isId info.sessionId = true
  createdAt : isIso info.createdAt = true
  updatedAt : isIso info.updatedAt = true
  msgCount : 0 < info.msgCount ∧ info.msgCount ≤ maxSafeInteger

section

variable {isIso : JsString → Bool}

theorem nullable_text (s : Option JsString) :
    Schema.nullable (.string fun _ => true) (nullableText s) = true := by
  cases s <;> rfl

theorem isUndefined_nullableText (s : Option JsString) : (nullableText s).isUndefined = false := by
  cases s <;> rfl

theorem sessionInfoSchema_iff (info : SessionInfo) :
    sessionInfoSchema isIso (.obj info.fields) = true ↔ ValidInfo isIso info := by
  have h := Schema.strictObject_iff
    [⟨js "handle", .string isId, some (.str info.handle)⟩,
      ⟨js "session_id", .string isId, some (.str info.sessionId)⟩,
      ⟨js "engine", .oneOf ["claude", "codex"], some (.str info.engine.text)⟩,
      ⟨js "cwd", .string fun _ => true, some (.str info.cwd)⟩,
      ⟨js "git_branch", .nullable (.string fun _ => true), some (nullableText info.gitBranch)⟩,
      ⟨js "cli_version", .nullable (.string fun _ => true), some (nullableText info.cliVersion)⟩,
      ⟨js "title", .string fun _ => true, some (.str info.title)⟩,
      ⟨js "created_at", .string isIso, some (.str info.createdAt)⟩,
      ⟨js "updated_at", .string isIso, some (.str info.updatedAt)⟩,
      ⟨js "active", .boolean, some (.bool info.active)⟩,
      ⟨js "is_subagent", .boolean, some (.bool info.isSubagent)⟩,
      ⟨js "msg_count", .posInt, some (.ofNat info.msgCount)⟩]
    (by simp only [List.map_cons, List.map_nil]; decide)
  have hengine : Schema.oneOf ["claude", "codex"] (.str info.engine.text) = true := by
    cases info.engine <;> decide
  simp only [List.forall_mem_cons, List.not_mem_nil, false_implies, implies_true, and_true,
    Option.getD_some, Schema.string_str, nullable_text, hengine, Schema.boolean_bool, true_and,
    Schema.posInt_ofNat] at h
  refine h.trans ⟨?_, ?_⟩
  · rintro ⟨hhandle, hsession, hcreated, hupdated, hcount⟩
    exact ⟨hhandle, hsession, hcreated, hupdated, hcount⟩
  · intro hv
    exact ⟨hv.handle, hv.sessionId, hv.createdAt, hv.updatedAt, hv.msgCount⟩

theorem sessionListResponseSchema_iff (requestId : JsString) (result : SessionListResult)
    (e : Envelope) :
    sessionListResponseSchema isIso (.obj (sessionListResponse requestId result e)) = true ↔
      isId e.id = true ∧ isIso e.ts = true ∧ isId requestId = true ∧
        result.sessions.length ≤ arrayMax ∧ ∀ info ∈ result.sessions, ValidInfo isIso info := by
  have h := Schema.strictObject_iff
    [⟨js "id", .string isId, some (.str e.id)⟩,
      ⟨js "ts", .string isIso, some (.str e.ts)⟩,
      ⟨js "type", .literal "session.list.response", some (.lit "session.list.response")⟩,
      ⟨js "request_id", .string isId, some (.str requestId)⟩,
      ⟨js "sessions", .array (sessionInfoSchema isIso) arrayMax,
        some (.arr (result.sessions.map fun info => .obj info.fields))⟩,
      ⟨js "next_cursor", .optional (.nullable (.string fun _ => true)),
        some (nullableText result.nextCursor)⟩,
      ⟨js "truncated", .boolean, some (.bool result.truncated)⟩]
    (by simp only [List.map_cons, List.map_nil]; decide)
  have hcursor : Schema.optional (.nullable (.string fun _ => true))
      (nullableText result.nextCursor) = true := by
    rw [Schema.optional_of_defined (isUndefined_nullableText _), nullable_text]
  simp only [List.forall_mem_cons, List.not_mem_nil, false_implies, implies_true, and_true,
    Option.getD_some, Schema.string_str, Schema.literal_lit, hcursor, Schema.boolean_bool, true_and,
    Schema.array_map, sessionInfoSchema_iff] at h
  exact h

end

/-! ### Bytes -/

/-- What `h_` and 16 random bytes in hexadecimal give. -/
structure IsHandle (handle : JsString) : Prop where
  hex : ∃ hex : JsString, handle = js "h_" ++ hex ∧ hex.length = 32 ∧ ∀ u ∈ hex, isHexUnit u = true

/-- The bytes of a session on the wire. -/
def SessionCandidate.bytes (c : SessionCandidate) : Nat :=
  182 + quotedBytes c.stableId + quotedBytes c.target.engine.text + quotedBytes c.redacted +
    jsonBytes (nullableText c.gitBranch) + jsonBytes (nullableText c.cliVersion) +
    quotedBytes c.title + quotedBytes c.createdAt + quotedBytes c.updatedAt +
    jsonBytes (.bool c.active) + jsonBytes (.bool c.isSubagent) + jsonBytes (.ofNat c.msgCount)

/-- What a response shows, without the handles. -/
structure SessionPage where
  sessions : List SessionCandidate
  nextCursor : Option JsString
  truncated : Bool

/-- The bytes of a response with this page. -/
def SessionPage.bytes (page : SessionPage) (requestId : JsString) (e : Envelope) : Nat :=
  98 + envelopeBytes e + quotedBytes requestId + jsonBytes (nullableText page.nextCursor) +
    jsonBytes (.bool page.truncated) + max 2 (1 + (page.sessions.map fun c => c.bytes + 1).sum)

theorem isPlain_of_isHexUnit {u : UInt16} (h : isHexUnit u = true) : isPlain u = true := by
  have hrange : 48 ≤ u.toNat ∧ u.toNat ≤ 57 ∨ 65 ≤ u.toNat ∧ u.toNat ≤ 70 ∨
      97 ≤ u.toNat ∧ u.toNat ≤ 102 := by
    simp only [isHexUnit, isDigit, Bool.or_eq_true, Bool.and_eq_true, decide_eq_true_eq,
      UInt16.le_iff_toNat_le, or_assoc] at h
    exact h
  have hne : ∀ v : UInt16, v.toNat = 34 ∨ v.toNat = 92 → u ≠ v := by
    rintro v hv rfl
    omega
  rw [isPlain, isAscii_iff.mpr (by omega), Bool.true_and, Bool.and_eq_true, Bool.and_eq_true,
    decide_eq_true_eq, decide_eq_true_eq, decide_eq_true_eq, UInt16.le_iff_toNat_le]
  refine ⟨⟨?_, hne _ (Or.inl rfl)⟩, hne _ (Or.inr rfl)⟩
  show 32 ≤ u.toNat
  omega

theorem quotedBytes_handle {handle : JsString} (h : IsHandle handle) : quotedBytes handle = 36 := by
  obtain ⟨hex, rfl, hlength, hhex⟩ := h.hex
  rw [quotedBytes_of_plain]
  · rw [List.length_append, hlength]
    rfl
  · intro u hu
    rcases List.mem_append.mp hu with hu | hu
    · have hplain : (js "h_").all isPlain = true := by decide
      exact List.all_eq_true.mp hplain u hu
    · exact isPlain_of_isHexUnit (hhex u hu)

theorem jsonBytes_info (c : SessionCandidate) {handle : JsString} (h : IsHandle handle) :
    jsonBytes (.obj (c.info handle).fields) = c.bytes := by
  have hbytes : jsonBytes (.obj (c.info handle).fields) =
      1 + ((c.info handle).fields.map entryBytes).sum := byteLength_stringifyObject _ _ rfl
  have hhandle : quotedBytes (c.info handle).handle = 36 := quotedBytes_handle h
  rw [hbytes, SessionInfo.fields]
  simp only [List.map_cons, List.map_nil, List.sum_cons, List.sum_nil]
  rw [entryBytes_key (n := 8) (by decide) rfl, entryBytes_key (n := 12) (by decide) rfl,
    entryBytes_key (n := 8) (by decide) rfl, entryBytes_key (n := 5) (by decide) rfl,
    entryBytes_key (n := 12) (by decide) (isUndefined_nullableText _),
    entryBytes_key (n := 13) (by decide) (isUndefined_nullableText _),
    entryBytes_key (n := 7) (by decide) rfl, entryBytes_key (n := 12) (by decide) rfl,
    entryBytes_key (n := 12) (by decide) rfl, entryBytes_key (n := 8) (by decide) rfl,
    entryBytes_key (n := 13) (by decide) rfl, entryBytes_key (n := 11) (by decide) rfl]
  simp only [jsonBytes_str]
  rw [hhandle]
  unfold SessionCandidate.bytes SessionCandidate.info
  dsimp only
  omega

/-! ### What a file gives -/

/-- The timestamp that a session file records. -/
def recordedTimestamp (host : HistoryHost) (engine : HistoryEngine) (content : JsString) : JsValue :=
  let head := parseHead host (jsonlLines content)
  match engine with
  | .claude => fieldOf head.head? "timestamp"
  | .codex => fieldOf (objectField head.head? "payload") "timestamp"

/-- A year of four digits. -/
def TimeValue.HasShortYear (t : TimeValue) : Prop := 0 ≤ t.year ∧ t.year ≤ 9999

/-- The times of a session file have years of four digits: the one it was changed at, and the one
it records if that can be read. -/
structure DatedFile (host : HistoryHost) (engine : HistoryEngine) (file : ReadSessionFile) : Prop where
  updated : ∀ t, timeClip file.mtimeMs = some t → t.HasShortYear
  created : ∀ s t, stringFromUnknown (recordedTimestamp host engine file.content) = some s →
    host.parseDate s = some t → t.HasShortYear

/-- What a candidate shows of its file. -/
structure ShownFrom (host : HistoryHost) (c : SessionCandidate) (file : ReadSessionFile) (updated : TimeValue) :
    Prop where
  time : timeClip file.mtimeMs = some updated
  updatedAt : c.updatedAt = updated.toISOString
  createdAt : c.createdAt =
    (isoFromUnknown host (recordedTimestamp host c.target.engine file.content)).getD updated.toISOString
  stableId : c.stableId = stableSessionId host c.target.engine c.target.sessionId
  msgCount : c.msgCount = (jsonlLines file.content).length

section

variable {host : HistoryHost} {fs : FileSystem host} {now : Decimal} {allowed : List JsString}
  {found : FoundFile}

theorem sessionCandidate_shows {engine : HistoryEngine} {file : ReadSessionFile} {sessionId : JsString}
    {scope : ScopedCwd} {gitBranch cliVersion : Option JsString} {title : Option JsString}
    {isSubagent : Bool} {c : SessionCandidate}
    (h : @sessionCandidate host now engine file sessionId scope gitBranch cliVersion
      (recordedTimestamp host engine file.content) title isSubagent
      (jsonlLines file.content).length = .ok (some c)) :
    ∃ updated, ShownFrom host c file updated := by
  unfold sessionCandidate at h
  split at h
  · exact nomatch h
  · rename_i updated hupdated
    obtain rfl := Option.some.inj (Except.ok.inj h)
    exact ⟨updated, hupdated, rfl, rfl, rfl, rfl⟩

theorem jsonlLines_ne_nil {content : JsString} (h : parseHead host (jsonlLines content) ≠ []) :
    jsonlLines content ≠ [] := by
  intro hnil
  rw [hnil] at h
  exact h rfl

/-- A candidate shows what its file gives, which is no empty file. -/
theorem parseFound_shows {c : SessionCandidate}
    (h : parseFound fs now allowed found = .ok (some c)) :
    ∃ file updated, readSessionFile fs found.path = some file ∧ ShownFrom host c file updated ∧
      jsonlLines file.content ≠ [] := by
  unfold parseFound at h
  split at h
  · exact nomatch h
  · rename_i file hread
    split at h
    · unfold parseClaudeFile at h
      dsimp only at h
      split at h
      · exact nomatch h
      · rename_i scope hscope
        obtain ⟨updated, hshown⟩ := sessionCandidate_shows h
        have hne : parseHead host (jsonlLines file.content) ≠ [] := by
          intro hnil
          rw [hnil] at hscope
          exact nomatch hscope
        exact ⟨file, updated, hread, hshown, jsonlLines_ne_nil hne⟩
    · unfold parseCodexFile at h
      dsimp only at h
      split at h
      · exact nomatch h
      · rename_i payload hpayload
        have hne : parseHead host (jsonlLines file.content) ≠ [] := by
          intro hnil
          rw [hnil] at hpayload
          exact nomatch hpayload
        split at h
        · split at h
          · exact nomatch h
          · have hstamp : fieldOf (some payload) "timestamp" =
                recordedTimestamp host .codex file.content := by
              rw [recordedTimestamp, hpayload]
            rw [hstamp] at h
            obtain ⟨updated, hshown⟩ := sessionCandidate_shows h
            exact ⟨file, updated, hread, hshown, jsonlLines_ne_nil hne⟩
        · exact nomatch h

/-- The dates that are shown are valid when the file's are. -/
theorem dates_valid_iff {isIso : JsString → Bool} (hiso : ChecksDates isIso) {c : SessionCandidate}
    {file : ReadSessionFile} {updated : TimeValue} (h : ShownFrom host c file updated) :
    (isIso c.createdAt = true ∧ isIso c.updatedAt = true) ↔
      DatedFile host c.target.engine file := by
  rw [h.createdAt, h.updatedAt, hiso updated]
  constructor
  · rintro ⟨hcreated, hupdated⟩
    refine ⟨?_, ?_⟩
    · intro t ht
      rw [h.time] at ht
      exact Option.some.inj ht ▸ hupdated
    · intro s t hs ht
      rw [isoFromUnknown, hs, Option.bind_some, ht, Option.map_some, Option.getD_some] at hcreated
      exact (hiso t).mp hcreated
  · intro hdated
    refine ⟨?_, hdated.updated updated h.time⟩
    unfold isoFromUnknown
    cases hs : stringFromUnknown (recordedTimestamp host c.target.engine file.content) with
    | none => exact (hiso updated).mpr (hdated.updated updated h.time)
    | some s =>
        rw [Option.bind_some]
        cases ht : host.parseDate s with
        | none => exact (hiso updated).mpr (hdated.updated updated h.time)
        | some t => exact (hiso t).mpr (hdated.created s t hs ht)

/-- The units that a state still owes. -/
def Utf8State.owed (st : Utf8State) : Nat := if st.needed = 0 then 0 else 1

theorem pointUnits_length_le (n : Nat) : (pointUnits n).length ≤ 2 := by
  unfold pointUnits
  split
  · exact Nat.le_succ 1
  · exact Nat.le_refl 2

theorem utf8Lead_length_le (b : Nat) : (utf8Lead b).1.length + (utf8Lead b).2.owed ≤ 1 := by
  unfold utf8Lead
  split
  · rename_i h
    rw [pointUnits, if_pos (by omega)]
    exact Nat.le_refl 1
  split
  · exact Nat.le_refl 1
  split
  · exact Nat.le_refl 1
  split
  · exact Nat.le_refl 1
  · exact Nat.le_refl 1

theorem utf8Next_length_le (st : Utf8State) (b : Nat) :
    (utf8Next st b).1.length + (utf8Next st b).2.owed ≤ 1 + st.owed := by
  have hlead := utf8Lead_length_le b
  unfold utf8Next
  split
  · omega
  · rename_i hneeded
    have howed : st.owed = 1 := if_neg hneeded
    split
    · split
      · have hpoint := pointUnits_length_le (st.point * 0x40 + (b - 0x80))
        have hbetween : Utf8State.between.owed = 0 := rfl
        dsimp only
        omega
      · rw [howed]
        show 0 + _ ≤ 2
        unfold Utf8State.owed
        split <;> omega
    · dsimp only
      rw [List.length_cons]
      omega

/-- What is decoded has no more units than bytes. -/
theorem utf8DecodeFrom_length_le (st : Utf8State) (bytes : List UInt8) :
    (utf8DecodeFrom st bytes).length ≤ bytes.length + st.owed := by
  induction bytes generalizing st with
  | nil =>
      unfold utf8DecodeFrom Utf8State.owed
      split
      · exact Nat.le_refl 0
      · exact Nat.le_refl 1
  | cons b rest ih =>
      have hnext := utf8Next_length_le st b.toNat
      have hrest := ih (utf8Next st b.toNat).2
      rw [utf8DecodeFrom, List.length_append, List.length_cons]
      omega

/-- A file has as many records as a number can count. -/
theorem length_jsonlLines_le {path : JsString} {file : ReadSessionFile}
    (h : readSessionFile fs path = some file) :
    (jsonlLines file.content).length ≤ maxSafeInteger := by
  unfold readSessionFile at h
  split at h
  · exact nomatch h
  · rename_i stored _
    obtain ⟨hsize, h⟩ := Option.ite_none_left_eq_some.mp h
    obtain rfl := Option.some.inj h
    have hdecoded : (utf8Decode stored.bytes).length ≤ stored.bytes.length :=
      utf8DecodeFrom_length_le .between stored.bytes
    have hrecords : (splitRecords (utf8Decode stored.bytes)).length ≤
        (utf8Decode stored.bytes).length + 1 := by
      have hroom := Nat.le_of_add_left_le (splitLines_room newline (utf8Decode stored.bytes)).2
      rw [splitRecords, List.length_append, List.length_map, List.length_singleton]
      exact Nat.succ_le_succ hroom
    have hfilter : (jsonlLines (utf8Decode stored.bytes)).length ≤
        (splitRecords (utf8Decode stored.bytes)).length := List.length_filter_le _ _
    unfold maxSessionBytes at hsize
    unfold maxSafeInteger
    dsimp only
    omega

end

/-! ### The response -/

namespace Enumerator

variable (e : Enumerator)

/-- The page of a list, or none where a date is not valid. -/
def pageOf (fs : FileSystem e.host) (now : Decimal) (req : SessionListRequest) : SessionPage :=
  if realAllowlist fs e.allowlist = [] ∨ (e.candidates fs now req.filter).2 = true then
    ⟨[], none, false⟩
  else
    let left := afterCursor (e.listed fs now req.filter)
      (decodeCursor e.host (req.page.bind fun page => page.cursor))
    let limit := max 1 (min ((req.page.map fun page => page.limit).getD maxResponseSessions)
      maxResponseSessions)
    let truncated : Bool := limit < left.length
    { sessions := left.take limit
      nextCursor := if truncated then (left.take limit).getLast?.map encodeCursor else none
      truncated := truncated || (e.claudeScan fs req.filter).capReached }

/-- What the daemon answers; a list that throws gives an empty answer. -/
def answerList (fs : FileSystem e.host) (now : Decimal) (req : SessionListRequest)
    (table : HandleTable) : SessionListResult :=
  match (e.list fs now req table).1 with
  | .ok result => result
  | .error _ => ⟨[], none, false⟩

/-- What holds of a response. -/
structure ListFits (isIso : JsString → Bool) (requestId : JsString) (result : SessionListResult)
    (env : Envelope) : Prop where
  valid : sessionListResponseSchema isIso (.obj (sessionListResponse requestId result env)) = true
  fits : FitsFrame (sessionListResponse requestId result env)

variable {e} {fs : FileSystem e.host} {now : Decimal} {req : SessionListRequest} {table : HandleTable}

theorem answerList_eq :
    e.answerList fs now req table =
      { sessions := (e.pageOf fs now req).sessions.map fun c =>
          c.info (e.handleOf (e.list fs now req table).2 c.target)
        nextCursor := (e.pageOf fs now req).nextCursor
        truncated := (e.pageOf fs now req).truncated } := by
  unfold answerList pageOf
  by_cases hroots : realAllowlist fs e.allowlist = []
  · rw [if_pos (Or.inl hroots), list, if_pos hroots]
    rfl
  · by_cases hfailed : (e.candidates fs now req.filter).2 = true
    · rw [if_pos (Or.inr hfailed), list, if_neg hroots]
      dsimp only
      rw [if_pos hfailed]
      rfl
    · rw [if_neg (not_or.mpr ⟨hroots, hfailed⟩), list, if_neg hroots]
      dsimp only
      rw [if_neg hfailed]
      rfl

theorem mem_pageOf (table : HandleTable) {c : SessionCandidate}
    (h : c ∈ (e.pageOf fs now req).sessions) :
    c ∈ (e.candidates fs now req.filter).1 ∧
      (e.list fs now req table).2 = e.register table (e.candidates fs now req.filter).1 := by
  unfold pageOf at h
  split at h
  · exact absurd h List.not_mem_nil
  · rename_i hnot
    obtain ⟨hroots, hfailed⟩ := not_or.mp hnot
    have hleft := List.mem_of_mem_take h
    refine ⟨mem_listed ?_, ?_⟩
    · unfold afterCursor at hleft
      split at hleft
      · exact hleft
      · split at hleft
        · exact List.mem_of_mem_filter hleft
        · exact hleft
    · rw [list, if_neg hroots]
      dsimp only
      rw [if_neg hfailed]

theorem length_pageOf_le : (e.pageOf fs now req).sessions.length ≤ arrayMax := by
  unfold pageOf
  split
  · exact Nat.zero_le _
  · have hlimit : max 1 (min ((req.page.map fun page => page.limit).getD maxResponseSessions)
        maxResponseSessions) ≤ arrayMax := by
      unfold maxResponseSessions arrayMax
      omega
    exact Nat.le_trans (List.length_take_le _ _) hlimit

/-- The condition on the files of a page. -/
structure PageFits (fs : FileSystem e.host) (now : Decimal) (req : SessionListRequest)
    (requestId : JsString) (env : Envelope) : Prop where
  /-- Their times have years of four digits. -/
  dated : ∀ c ∈ (e.pageOf fs now req).sessions, ∀ file,
    readSessionFile fs c.target.path = some file → DatedFile e.host c.target.engine file
  /-- What is copied of them leaves the room. -/
  room : (e.pageOf fs now req).bytes requestId env ≤ maxFrameBytes

theorem shows_of_mem {c : SessionCandidate} (h : c ∈ (e.pageOf fs now req).sessions) :
    ∃ file updated, readSessionFile fs c.target.path = some file ∧ ShownFrom e.host c file updated ∧
      jsonlLines file.content ≠ [] := by
  obtain ⟨found, -, hparse⟩ := List.mem_map.mp (mem_collect (mem_pageOf emptyTable h).1)
  obtain ⟨read, hread, -, hpath, -⟩ := parseFound_target hparse
  obtain ⟨file, updated, hfile, hshown, hne⟩ := parseFound_shows hparse
  refine ⟨file, updated, ?_, hshown, hne⟩
  rw [hpath, readSessionFile_path hread]
  exact hfile

/-- A session of a page is valid when its dates are. -/
theorem validInfo_iff {isIso : JsString → Bool} (hiso : ChecksDates isIso) {c : SessionCandidate}
    (h : c ∈ (e.pageOf fs now req).sessions) {handle : JsString} (hhandle : IsHandle handle) :
    ValidInfo isIso (c.info handle) ↔ ∀ file, readSessionFile fs c.target.path = some file →
      DatedFile e.host c.target.engine file := by
  obtain ⟨file, updated, hread, hshown, hne⟩ := shows_of_mem h
  have hdates := dates_valid_iff hiso hshown
  constructor
  · intro hv file' hread'
    obtain rfl := Option.some.inj (hread.symm.trans hread')
    exact hdates.mp ⟨hv.createdAt, hv.updatedAt⟩
  · intro hdated
    obtain ⟨hcreated, hupdated⟩ := hdates.mpr (hdated file hread)
    refine ⟨?_, ?_, hcreated, hupdated, ?_⟩
    · obtain ⟨hex, rfl, hlength, -⟩ := hhandle.hex
      show isId (js "h_" ++ hex) = true
      rw [isId, List.length_append, hlength]
      decide
    · show isId c.stableId = true
      have hlength := List.length_take_le 32
        (hexText (e.host.sha256 (c.target.engine.text ++ nul :: c.target.sessionId)))
      rw [hshown.stableId, stableSessionId, isId, Bool.and_eq_true, decide_eq_true_eq,
        decide_eq_true_eq, List.length_append, show (js "s_").length = 2 from rfl]
      omega
    · show 0 < c.msgCount ∧ c.msgCount ≤ maxSafeInteger
      rw [hshown.msgCount]
      exact ⟨List.length_pos_of_ne_nil hne, length_jsonlLines_le hread⟩

theorem isHandle_of_mem {c : SessionCandidate} (h : c ∈ (e.pageOf fs now req).sessions)
    (hdraws : ∀ n < (e.list fs now req table).2.keyToHandle.length, IsHandle (e.handles n)) :
    IsHandle (e.handleOf (e.list fs now req table).2 c.target) := by
  obtain ⟨hfound, htable⟩ := mem_pageOf table h
  refine hdraws _ (List.idxOf_lt_length_of_mem ?_)
  rw [htable]
  exact mem_register hfound

/-- The bytes of a response. -/
theorem byteLength_response (requestId : JsString) (env : Envelope)
    (hdraws : ∀ n < (e.list fs now req table).2.keyToHandle.length, IsHandle (e.handles n)) :
    byteLength (stringifyObject (sessionListResponse requestId (e.answerList fs now req table) env)) =
      (e.pageOf fs now req).bytes requestId env := by
  have htype : quotedBytes (js "session.list.response") = 23 := by decide
  have hsessions : jsonBytes (.arr ((e.answerList fs now req table).sessions.map
      fun info => .obj info.fields)) =
        max 2 (1 + ((e.pageOf fs now req).sessions.map fun c => c.bytes + 1).sum) := by
    have hbytes : ∀ c ∈ (e.pageOf fs now req).sessions,
        jsonBytes (.obj (c.info (e.handleOf (e.list fs now req table).2 c.target)).fields) + 1 =
          c.bytes + 1 :=
      fun c hc => congrArg (· + 1) (jsonBytes_info c (isHandle_of_mem hc hdraws))
    rw [answerList_eq, jsonBytes_arr, List.map_map, List.map_map]
    simp only [Function.comp_def, List.map_congr_left hbytes, List.map_eq_nil_iff]
    cases hpage : (e.pageOf fs now req).sessions with
    | nil => rfl
    | cons c rest =>
        rw [if_neg (List.cons_ne_nil c rest), List.map_cons, List.sum_cons]
        omega
  rw [sessionListResponse, byteLength_message]
  simp only [List.map_cons, List.map_nil, List.sum_cons, List.sum_nil]
  rw [entryBytes_key (n := 6) (by decide) rfl, entryBytes_key (n := 12) (by decide) rfl,
    entryBytes_key (n := 10) (by decide) rfl,
    entryBytes_key (n := 13) (by decide) (isUndefined_nullableText _),
    entryBytes_key (n := 11) (by decide) rfl, hsessions, answerList_eq]
  simp only [jsonBytes_str, JsValue.lit, htype]
  unfold SessionPage.bytes
  omega

/-- **A list of sessions goes through when the files of its page have plain dates and leave the
room.** -/
theorem list_response_iff (e : Enumerator) (fs : FileSystem e.host) (now : Decimal)
    (req : SessionListRequest) (table : HandleTable) (isIso : JsString → Bool)
    (requestId : JsString) (uuid : Uuid) (time : TimeValue) (hiso : ChecksDates isIso)
    (hrequest : isId requestId = true) (htime : time.HasShortYear)
    (hdraws : ∀ n < (e.list fs now req table).2.keyToHandle.length, IsHandle (e.handles n)) :
    ListFits isIso requestId (e.answerList fs now req table) (freshEnvelope uuid time) ↔
      PageFits fs now req requestId (freshEnvelope uuid time) := by
  have hid : isId (freshEnvelope uuid time).id = true := by
    show isId (js "m-" ++ uuid.text) = true
    rw [isId, List.length_append, uuid.length_eq]
    decide
  have hts : isIso (freshEnvelope uuid time).ts = true := (hiso time).mpr htime
  have hvalid : sessionListResponseSchema isIso
      (.obj (sessionListResponse requestId (e.answerList fs now req table) (freshEnvelope uuid time))) =
        true ↔ ∀ c ∈ (e.pageOf fs now req).sessions, ∀ file,
          readSessionFile fs c.target.path = some file → DatedFile e.host c.target.engine file := by
    rw [sessionListResponseSchema_iff, answerList_eq]
    simp only [hid, hts, hrequest, true_and, List.length_map, length_pageOf_le, List.forall_mem_map]
    exact forall₂_congr fun c hc => validInfo_iff hiso hc (isHandle_of_mem hc hdraws)
  have hfits : FitsFrame (sessionListResponse requestId (e.answerList fs now req table)
      (freshEnvelope uuid time)) ↔
        (e.pageOf fs now req).bytes requestId (freshEnvelope uuid time) ≤ maxFrameBytes := by
    rw [fitsFrame_iff, byteLength_response requestId _ hdraws]
  constructor
  · intro h
    exact ⟨hvalid.mp h.valid, hfits.mp h.fits⟩
  · intro h
    exact ⟨hvalid.mpr h.dated, hfits.mpr h.room⟩

end Enumerator

/-! ### A session of the year 10000 -/

def farDate : JsString := js "+010000-01-01T00:00:00Z"

def farHost : HistoryHost :=
  { copiedHost with
    parseDate := fun s =>
      if s = farDate then some ⟨253402300800000, by decide, by decide⟩ else none }

theorem zero_not_mem_sessionPath : (0 : UInt16) ∉ js "/c/p/" ++ (copiedId ++ js ".jsonl") := by
  decide +kernel

/-- A project with a file for one session. -/
def oneSessionStore (content : JsString) : FileSystem farHost where
  safeReadDir dir :=
    if dir = js "/c" then [⟨js "p", .directory⟩]
    else if dir = js "/c/p" then [⟨copiedId ++ js ".jsonl", .file⟩]
    else []
  file path :=
    if path = js "/c/p/" ++ (copiedId ++ js ".jsonl") then
      some ⟨utf8Encode content, copiedNow, rfl⟩
    else none
  file_path path h := by
    split at h
    · rename_i hpath
      rw [hpath]
      exact zero_not_mem_sessionPath
    · exact absurd h Bool.false_ne_true
  realpath path := if path = js "/w" then some (js "/w") else none

def longHandle (n : Nat) : JsString := js "h_" ++ digitUnits (10 ^ 31 + n)

def farEnumerator : Enumerator :=
  { copiedEnumerator with
    host := farHost
    handles := longHandle
    handles_injective := fun _ _ h =>
      Nat.add_left_cancel (digitUnits_injective (List.append_cancel_left h)) }

def farEnvelope : Envelope :=
  freshEnvelope ⟨copiedId, by decide⟩ ⟨1783296014123, by decide, by decide⟩

theorem far_response_iff :
    Enumerator.ListFits startsWithDigit (js "r")
        (farEnumerator.answerList (oneSessionStore (js "\x7b\"cwd\":\"/w\"\x7d")) copiedNow {}
          Enumerator.emptyTable) farEnvelope ↔
      Enumerator.PageFits (e := farEnumerator) (oneSessionStore (js "\x7b\"cwd\":\"/w\"\x7d"))
        copiedNow {} (js "r") farEnvelope := by
  refine farEnumerator.list_response_iff _ copiedNow {} Enumerator.emptyTable startsWithDigit
    (js "r") _ _ checksDates_startsWithDigit (by decide) ?_ ?_
  · unfold TimeValue.HasShortYear
    decide +kernel
  · intro n hn
    have hone : (farEnumerator.list (oneSessionStore (js "\x7b\"cwd\":\"/w\"\x7d")) copiedNow {}
        Enumerator.emptyTable).2.keyToHandle.length = 1 := by decide +kernel
    obtain rfl : n = 0 := by omega
    exact ⟨digitUnits (10 ^ 31 + 0), rfl, by decide +kernel, by decide +kernel⟩

/-- The date is sent with a sign and six digits for its year. -/
theorem far_session_refused :
    ¬ Enumerator.ListFits startsWithDigit (js "r")
      (farEnumerator.answerList
        (oneSessionStore (js "\x7b\"cwd\":\"/w\",\"timestamp\":\"" ++ farDate ++ js "\"\x7d"))
        copiedNow {} Enumerator.emptyTable) farEnvelope := by
  intro h
  have hinvalid : sessionListResponseSchema startsWithDigit (.obj (sessionListResponse (js "r")
      (farEnumerator.answerList
        (oneSessionStore (js "\x7b\"cwd\":\"/w\",\"timestamp\":\"" ++ farDate ++ js "\"\x7d"))
        copiedNow {} Enumerator.emptyTable) farEnvelope)) = false := by decide +kernel
  rw [h.valid] at hinvalid
  exact Bool.false_ne_true hinvalid.symm

end HuginAgent
