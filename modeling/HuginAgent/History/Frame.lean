/-
The bound on a history frame.

A page holds entries of together no more than the budget, since one entry alone is within it
(`scanPage_bytes`).  What is written around them, the envelope, the request's id, the commas
and the cursor, is within the slack of 16 KiB that the budget leaves
(`history_fits`).
-/
import HuginAgent.History.Paging
import HuginAgent.History.Plain

namespace HuginAgent

/-! ### Entries -/

/-- What bounding makes of an entry. -/
structure BoundedEntry (entry bounded : SessionHistoryEntry) : Prop where
  bytes : historyEntryBytes bounded ≤ historyEntryByteMax
  within : historyEntryBytes entry ≤ historyEntryByteMax → bounded = entry
  same : bounded.entryId = entry.entryId ∧ bounded.role = entry.role ∧
    bounded.createdAt = entry.createdAt ∧ bounded.contentTruncated = entry.contentTruncated
  content : bounded.content <+: entry.content
  calls : bounded.calls <+: entry.calls
  /-- Without a call that is left the property is gone. -/
  absent : bounded ≠ entry → bounded.calls = [] → bounded.toolCalls = none
  counted : ∀ kind, countOf (bounded.omitted.getD []) kind =
    countOf (entry.omitted.getD []) kind +
      if kind = .other then entry.calls.length - bounded.calls.length else 0
  ordered : Ordered (bounded.omitted.getD [])

section Entries

variable {host : HistoryHost} {engine : HistoryEngine} {sessionId : JsString}
  {entry : SessionHistoryEntry}

theorem Plain.bounded (h : Plain host engine sessionId entry) :
    BoundedEntry entry (boundHistoryEntryBytes entry) := by
  obtain ⟨hbytes, ⟨hsame, -⟩ | ⟨hlong, kept, rest, hcalls, hrest, hbound⟩⟩ := h.bound_cases
  · rw [hsame] at hbytes ⊢
    refine ⟨hbytes, fun _ => rfl, ⟨rfl, rfl, rfl, rfl⟩, List.prefix_rfl, List.prefix_rfl,
      fun hne => absurd rfl hne, ?_, ?_⟩
    · intro kind
      rw [Nat.sub_self, ite_self, Nat.add_zero]
    · cases homitted : entry.omitted with
      | none => exact List.Pairwise.nil
      | some items => exact h.ordered items homitted
  · obtain ⟨items, homitted, hordered, hcounted, -⟩ := @Plain.shortened_omitted _ _ _ _ h kept rest
      hrest maxSafeInteger fun items hitems item hitem => (h.counts items hitems item hitem).2
    have hkept : (entry.shortened kept rest).calls = kept := by
      rw [SessionHistoryEntry.shortened, if_neg hrest, incrementOmittedOther_calls,
        SessionHistoryEntry.calls_withCalls]
    rw [hbound] at hbytes ⊢
    refine ⟨hbytes, fun hfits => absurd hfits (Nat.not_le.mpr hlong), ?_, ?_, ?_, ?_, ?_, ?_⟩
    · rw [Plain.shortened_eq hrest]
      exact ⟨rfl, rfl, rfl, rfl⟩
    · rw [Plain.shortened_eq hrest]
    · rw [hkept, hcalls]
      exact List.prefix_append kept rest
    · intro _ hnil
      rw [hkept] at hnil
      rw [Plain.shortened_eq hrest, hnil]
      rfl
    · intro kind
      rw [homitted, Option.getD_some, hcounted kind, hkept, hcalls, List.length_append,
        Nat.add_sub_cancel_left]
    · rw [homitted]
      exact hordered

end Entries

/-! ### Pages -/

/-- The bytes of entries, without what stands between them. -/
def entriesBytes (entries : List SessionHistoryEntry) : Nat :=
  (entries.map historyEntryBytes).sum

theorem entriesBytes_append (a b : List SessionHistoryEntry) :
    entriesBytes (a ++ b) = entriesBytes a + entriesBytes b := by
  rw [entriesBytes, List.map_append, List.sum_append, entriesBytes, entriesBytes]

/-- A page that ends at `i` is within what is left of the budget. -/
theorem scanPage_bytes {entries : List SessionHistoryEntry}
    (hall : ∀ entry ∈ entries, historyEntryBytes entry ≤ historyFrameBudget) {limit : Nat}
    (i count bytes : Nat) (hi : i ≤ entries.length) (hcount : count = 0 → bytes = 0)
    (hbytes : bytes ≤ historyFrameBudget) :
    bytes + entriesBytes ((entries.take i).drop (scanPage entries limit i i count bytes)) ≤
      historyFrameBudget := by
  have hstop : ∀ i, i ≤ entries.length → entriesBytes ((entries.take i).drop i) = 0 := by
    intro i hi
    rw [List.drop_of_length_le (by rw [List.length_take]; omega)]
    rfl
  induction i generalizing count bytes with
  | zero =>
      rw [scanPage, hstop 0 hi]
      exact hbytes
  | succ i ih =>
      obtain ⟨entry, hget⟩ : ∃ entry, entries[i]? = some entry :=
        ⟨_, List.getElem?_eq_getElem hi⟩
      have hentry := hall entry (List.mem_of_getElem? hget)
      have htake : entries.take (i + 1) = entries.take i ++ [entry] := by
        rw [List.take_add_one, hget]
        rfl
      rw [scanPage]
      split
      · rename_i hlimit
        rw [hget]
        dsimp only
        split
        · rw [hstop (i + 1) hi]
          exact hbytes
        · rename_i hmore
          have hnext : bytes + historyEntryBytes entry ≤ historyFrameBudget := by
            rcases Nat.eq_zero_or_pos count with hzero | hpos
            · rw [hcount hzero, Nat.zero_add]
              exact hentry
            · exact Nat.not_lt.mp fun hlt => hmore ⟨hpos, hlt⟩
          have hrest := ih (count + 1) (bytes + historyEntryBytes entry) (Nat.le_of_lt hi)
            (fun h => absurd h (Nat.succ_ne_zero count)) hnext
          have hle := (@scanPage_le entries limit i (count + 1)
            (bytes + historyEntryBytes entry) hlimit).1
          generalize scanPage entries limit i i (count + 1) (bytes + historyEntryBytes entry) =
            start at hrest hle
          have hlength : start ≤ (entries.take i).length := by
            rw [List.length_take, Nat.min_eq_left (Nat.le_of_lt hi)]
            exact hle
          have hlast : entriesBytes [entry] = historyEntryBytes entry := Nat.add_zero _
          rw [htake, List.drop_append_of_le_length hlength, entriesBytes_append, hlast,
            Nat.add_comm (entriesBytes _), ← Nat.add_assoc]
          exact hrest
      · rw [hstop (i + 1) hi]
        exact hbytes

/-! ### Cursors -/

theorem utf8Point_length_le (n : Nat) : (utf8Point n).length ≤ 4 := by
  unfold utf8Point
  split
  · exact (by decide : 1 ≤ 4)
  split
  · exact (by decide : 2 ≤ 4)
  split
  · exact (by decide : 3 ≤ 4)
  · exact Nat.le_refl 4

theorem utf8Encode_length_le (s : JsString) : (utf8Encode s).length ≤ 4 * s.length := by
  induction s using utf8Encode.induct with
  | case1 => exact Nat.le_refl 0
  | case2 u => exact utf8Point_length_le _
  | case3 u v rest h ih =>
      have hpoint := utf8Point_length_le (pairPoint u v)
      rw [utf8Encode, if_pos h, List.length_append, List.length_cons, List.length_cons]
      omega
  | case4 u v rest h ih =>
      have hpoint := utf8Point_length_le
        (if isHighSurrogate u || isLowSurrogate u then 0xFFFD else u.toNat)
      rw [utf8Encode, if_neg h, List.length_append, List.length_cons]
      omega

theorem writeCursor_length_le (o : JsObject) :
    (writeCursor o).length ≤ 8 * (stringifyObject o).length := by
  have hencode := utf8Encode_length_le (stringifyObject o)
  rw [writeCursor, toBase64Url, List.length_map, sextets_length]
  omega

theorem jsonText_ofNat_length {n : Nat} (h : n < 10 ^ 21) :
    (jsonText (.num (.ofInt n))).length ≤ 21 := Decimal.text_ofInt_length h

theorem encodeHistoryCursor_length {b sig : Nat} (hb : b < 10 ^ 21) (hsig : sig < 10 ^ 21) :
    (encodeHistoryCursor (.ofInt b) (.ofInt sig)).length ≤ 480 := by
  have hbText := jsonText_ofNat_length hb
  have hsigText := jsonText_ofNat_length hsig
  have htext : (stringifyObject [(js "b", .num (.ofInt b)), (js "sig", .num (.ofInt sig))]).length =
      13 + (jsonText (.num (.ofInt b))).length + (jsonText (.num (.ofInt sig))).length := by
    have hkeys : (quote (js "b")).length = 3 ∧ (quote (js "sig")).length = 5 := by decide
    have htext : stringifyObject [(js "b", .num (.ofInt b)), (js "sig", .num (.ofInt sig))] =
        unit '\x7b' :: ((quote (js "b") ++ unit ':' :: jsonText (.num (.ofInt b))) ++ unit ',' ::
          (quote (js "sig") ++ unit ':' :: jsonText (.num (.ofInt sig))) ++ [unit '\x7d']) := rfl
    rw [htext]
    simp only [List.length_cons, List.length_append, List.length_nil, hkeys.1, hkeys.2]
    omega
  have hlength := writeCursor_length_le [(js "b", .num (.ofInt b)), (js "sig", .num (.ofInt sig))]
  rw [encodeHistoryCursor]
  omega

/-! ### The response -/

/-- `randomUUID()`. -/
structure Uuid where
  text : JsString
  length_eq : text.length = 36

/-- `envelope()`: a message id of a random UUID, and the time. -/
def freshEnvelope (uuid : Uuid) (now : TimeValue) : Envelope where
  id := js "m-" ++ uuid.text
  ts := now.toISOString

/-- The answer to `session.history.request`. -/
def sessionHistoryResponse (requestId : JsString) (page : HistoryPage) (e : Envelope) : JsObject :=
  e.fields ++ [(js "type", .lit "session.history.response"), (js "request_id", .str requestId),
    (js "entries", .arr (page.entries.map fun entry => .obj entry.fields)),
    (js "next_cursor", (page.nextCursor.map JsValue.str).getD .null),
    (js "truncated", .bool page.truncated)]

theorem freshEnvelope_bytes_le (uuid : Uuid) (now : TimeValue) :
    envelopeBytes (freshEnvelope uuid now) ≤ 394 := by
  have hid : (js "m-" ++ uuid.text).length ≤ 38 := by
    rw [List.length_append, uuid.length_eq]
    exact (by decide : (js "m-").length + 36 ≤ 38)
  have hidBytes := quotedBytes_le_of_length hid
  have htsBytes := quotedBytes_le_of_length (toISOString_length_le now)
  show quotedBytes (js "m-" ++ uuid.text) + quotedBytes now.toISOString ≤ 394
  omega

theorem sum_entries (entries : List SessionHistoryEntry) :
    ((entries.map fun entry => JsValue.obj entry.fields).map fun v => jsonBytes v + 1).sum =
      entriesBytes entries + entries.length := by
  induction entries with
  | nil => rfl
  | cons entry rest ih =>
      have hcons : entriesBytes (entry :: rest) = historyEntryBytes entry + entriesBytes rest := rfl
      rw [List.map_cons, List.map_cons, List.sum_cons, ih, hcons, List.length_cons]
      show historyEntryBytes entry + 1 + _ = _
      omega

/-- A response is a frame if its page is within the budget. -/
theorem sessionHistoryResponse_fits {requestId : JsString} {page : HistoryPage} {uuid : Uuid}
    {now : TimeValue} (hrequest : isId requestId = true)
    (hbytes : entriesBytes page.entries ≤ historyFrameBudget)
    (hlength : page.entries.length ≤ historyPageMax)
    (hcursor : ∀ cursor ∈ page.nextCursor, cursor.length ≤ 480) :
    FitsFrame (sessionHistoryResponse requestId page (freshEnvelope uuid now)) := by
  have henvelope := freshEnvelope_bytes_le uuid now
  have hrequestBytes : quotedBytes requestId ≤ 6 * 256 + 2 := by
    refine quotedBytes_le_of_length ?_
    simp only [isId, Bool.and_eq_true, decide_eq_true_eq] at hrequest
    exact hrequest.2
  have hcursorBytes : jsonBytes ((page.nextCursor.map JsValue.str).getD .null) ≤ 6 * 480 + 2 := by
    cases hnext : page.nextCursor with
    | none => exact (by decide : jsonBytes .null ≤ 6 * 480 + 2)
    | some cursor => exact quotedBytes_le_of_length (hcursor cursor hnext)
  have hcursorKey : ((page.nextCursor.map JsValue.str).getD .null).isUndefined = false := by
    cases page.nextCursor <;> rfl
  have htruncated : jsonBytes (.bool page.truncated) ≤ 5 := by
    cases page.truncated <;> decide
  have hentries : jsonBytes (.arr (page.entries.map fun entry => .obj entry.fields)) ≤
      2 + (entriesBytes page.entries + page.entries.length) := by
    rw [jsonBytes_arr]
    split
    · exact Nat.le_add_right 2 _
    · rw [sum_entries]
      omega
  have htype : quotedBytes (js "session.history.response") = 26 := by decide
  rw [fitsFrame_iff]
  unfold sessionHistoryResponse
  rw [Envelope.fields, List.cons_append, byteLength_stringifyObject _ _ rfl]
  simp only [List.map_cons, List.cons_append, List.nil_append, List.map_nil, List.sum_cons,
    List.sum_nil]
  rw [entryBytes_key (n := 4) (by decide) rfl, entryBytes_key (n := 4) (by decide) rfl,
    entryBytes_key (n := 6) (by decide) rfl, entryBytes_key (n := 12) (by decide) rfl,
    entryBytes_key (n := 9) (by decide) rfl, entryBytes_key (n := 13) (by decide) hcursorKey,
    entryBytes_key (n := 11) (by decide) rfl]
  simp only [jsonBytes_str, JsValue.lit, htype]
  rw [envelopeBytes] at henvelope
  unfold historyFrameBudget maxFrameBytes at hbytes
  unfold historyPageMax at hlength
  unfold maxFrameBytes
  omega

/-! ### How many entries there are -/

theorem foldl_length_le {σ α : Type} {step : σ → α → σ} {size : σ → Nat}
    (hstep : ∀ st a, size (step st a) ≤ size st + 1) (l : List α) (st : σ) :
    size (l.foldl step st) ≤ size st + l.length := by
  induction l generalizing st with
  | nil => exact Nat.le_refl _
  | cons a l ih =>
      have hrest := ih (step st a)
      have hone := hstep st a
      rw [List.foldl_cons, List.length_cons]
      omega

theorem claudeStep_length (host : HistoryHost) (sessionId : JsString) (st : ClaudeBuild)
    (line : JsonlLine) :
    (claudeStep host sessionId st line).entries.length ≤ st.entries.length + 1 := by
  unfold claudeStep
  split
  · exact Nat.le_succ _
  · dsimp only
    split
    · exact Nat.le_of_eq (List.length_append ..)
    · exact Nat.le_of_eq (List.length_append ..)

theorem attach_length (host : HistoryHost) (sessionId : JsString) (line : JsonlLine)
    (call : SessionToolCall) (st : CodexBuild) :
    (st.attach host sessionId line call).entries.length ≤ st.entries.length + 1 := by
  unfold CodexBuild.attach
  split
  · exact Nat.le_succ_of_le (Nat.le_of_eq (List.length_modify ..))
  · exact Nat.le_of_eq (List.length_append ..)

theorem codexStep_length (host : HistoryHost) (sessionId : JsString) (index : CodexIndex)
    (st : CodexBuild) (line : JsonlLine) :
    (codexStep host sessionId index st line).entries.length ≤ st.entries.length + 1 := by
  unfold codexStep
  split
  · exact Nat.le_succ _
  split
  · split
    · exact Nat.le_succ _
    · exact Nat.le_of_eq (List.length_append ..)
  split
  · split
    · exact Nat.le_succ _
    · exact attach_length ..
  · split
    · exact Nat.le_succ _
    · split
      · exact attach_length ..
      · exact Nat.le_succ _

/-- A file has no more entries than units, but for one. -/
theorem buildHistoryEntries_length_le (host : HistoryHost) (engine : HistoryEngine)
    (content sessionId : JsString) :
    (buildHistoryEntries host engine content sessionId).length ≤ content.length + 1 := by
  have hlines : (parseJsonlLines host content).length ≤ content.length + 1 := by
    have hsplit := Nat.le_of_add_left_le (splitLines_room newline content).2
    refine Nat.le_trans (jsonlFrom_length_le host _ 0) ?_
    show ((splitLines newline content).1.map dropReturn ++ [_]).length ≤ _
    rw [List.length_append, List.length_map, List.length_singleton]
    exact Nat.succ_le_succ hsplit
  rw [buildHistoryEntries_eq, List.length_map]
  refine Nat.le_trans ?_ hlines
  cases engine with
  | claude =>
      have hle := @foldl_length_le _ _ _ (fun st : ClaudeBuild => st.entries.length)
        (claudeStep_length host sessionId) (parseJsonlLines host content)
        ⟨claudeResults (parseJsonlLines host content), []⟩
      rwa [List.length_nil, Nat.zero_add] at hle
  | codex =>
      have hle := @foldl_length_le _ _ _ (fun st : CodexBuild => st.entries.length)
        (codexStep_length host sessionId (codexIndex (parseJsonlLines host content)))
        (parseJsonlLines host content)
        ⟨(codexIndex (parseJsonlLines host content)).results, [], none⟩
      rwa [List.length_nil, Nat.zero_add] at hle

/-! ### History frames -/

/-- What holds of the frames of a session's history. -/
structure HistoryFits (host : HistoryHost) (engine : HistoryEngine) (content sessionId : JsString) :
    Prop where
  bounded : ∀ entry ∈ builtEntries host engine content sessionId,
    BoundedEntry entry (boundHistoryEntryBytes entry)
  fits : ∀ opts scope page, readSessionHistory host engine content sessionId opts scope = .ok page →
    ∀ requestId, isId requestId = true → ∀ uuid now,
      FitsFrame (sessionHistoryResponse requestId page (freshEnvelope uuid now))

/-- **Every entry is bounded, and every page of a session is a frame.** -/
theorem history_fits (host : HistoryHost) (engine : HistoryEngine) (content sessionId : JsString)
    (hlength : content.length ≤ maxSafeInteger) : HistoryFits host engine content sessionId := by
  have hbounded : ∀ entry ∈ builtEntries host engine content sessionId,
      BoundedEntry entry (boundHistoryEntryBytes entry) :=
    fun entry hentry => (plain_builtEntries hlength entry hentry).bounded
  refine ⟨hbounded, ?_⟩
  intro opts scope page hpage requestId hrequest uuid now
  have hall : ∀ entry ∈ buildHistoryEntries host engine content sessionId,
      historyEntryBytes entry ≤ historyFrameBudget := by
    intro entry hentry
    rw [buildHistoryEntries_eq] at hentry
    obtain ⟨built, hbuilt, rfl⟩ := List.mem_map.mp hentry
    exact Nat.le_trans (hbounded built hbuilt).bytes (by decide)
  obtain ⟨b, hcursor, rfl⟩ := paginateHistory_ok_iff.mp hpage
  have hb := hcursor.le
  have hof := @pageOf_pageAt host.sha256 _ scope opts.limit b hb
  have hentries := Nat.le_trans hb (buildHistoryEntries_length_le host engine content sessionId)
  refine sessionHistoryResponse_fits hrequest ?_ ?_ ?_
  · have hbytes := @scanPage_bytes _ hall (clampLimit opts.limit) b 0 0 hb (fun _ => rfl)
      (Nat.zero_le _)
    rwa [Nat.zero_add] at hbytes
  · have hmax := clampLimit_le opts.limit
    have hfew := hof.few
    rw [hof.length]
    omega
  · intro cursor hnext
    rw [hof.nextCursor] at hnext
    split at hnext
    · obtain rfl := Option.some.inj hnext
      have hstart := hof.start_le
      have hsig : sessionSig host.sha256 scope < 2 ^ 31 := Nat.mod_lt _ (by decide)
      unfold maxSafeInteger at hlength
      exact encodeHistoryCursor_length (by omega) (by omega)
    · exact nomatch hnext

theorem history_fits_sample :
    HistoryFits sampleHost .codex (eventLine ++ callLine) (js "s") :=
  history_fits sampleHost .codex (eventLine ++ callLine) (js "s") (by decide +kernel)

end HuginAgent
