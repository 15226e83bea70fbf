/-
Following the cursors of the list of sessions.

The pages are those of `Kit/Keyset.lean`: sessions are sorted by time and then by the locale,
and the page after a session is taken by time and then by code units.  So the pages are the
whole list just when the two orders agree on every two sessions of one time
(`list_paged_iff`).  They do not where two sessions have one key, or where the locale puts
their keys the other way round.
-/
import HuginAgent.Kit.Keyset
import HuginAgent.Listing.List

namespace HuginAgent

/-! ### The two orders -/

theorem isBefore_asymm (j k : ListCursor) (h : j.isBefore k = true) : k.isBefore j = false := by
  simp only [ListCursor.isBefore, Bool.or_eq_true, Bool.and_eq_true, decide_eq_true_eq] at h
  simp only [ListCursor.isBefore, Bool.or_eq_false_iff, Bool.and_eq_false_imp, decide_eq_false_iff_not,
    decide_eq_true_eq]
  rcases h with h | ⟨h, hkey⟩
  · exact ⟨not_lt_of_gt h, fun heq => absurd heq (ne_of_gt h)⟩
  · exact ⟨not_lt_of_ge (le_of_eq h), fun _ => List.lt_asymm hkey⟩

theorem isBefore_trans {i j k : ListCursor} (h : i.isBefore j = true) (h' : j.isBefore k = true) :
    i.isBefore k = true := by
  simp only [ListCursor.isBefore, Bool.or_eq_true, Bool.and_eq_true, decide_eq_true_eq] at h h' ⊢
  rcases h with h | ⟨h, hkey⟩ <;> rcases h' with h' | ⟨h', hkey'⟩
  · exact Or.inl (lt_trans h' h)
  · exact Or.inl (h' ▸ h)
  · exact Or.inl (h ▸ h')
  · exact Or.inr ⟨h'.trans h, List.lt_trans hkey hkey'⟩

namespace Collation

variable (collation : Collation)

theorem sortsBefore_iff (a b : SessionCandidate) : collation.sortsBefore a b = true ↔
    b.updatedMs < a.updatedMs ∨
      a.updatedMs = b.updatedMs ∧ collation.compare a.cursorKey b.cursorKey ≤ 0 := by
  simp only [sortsBefore, Bool.or_eq_true, Bool.and_eq_true, decide_eq_true_eq]

theorem sortsBefore_total (a b : SessionCandidate) :
    collation.sortsBefore a b = true ∨ collation.sortsBefore b a = true := by
  rw [sortsBefore_iff, sortsBefore_iff]
  rcases lt_trichotomy a.updatedMs b.updatedMs with h | h | h
  · exact Or.inr (Or.inl h)
  · rcases collation.total a.cursorKey b.cursorKey with hle | hle
    · exact Or.inl (Or.inr ⟨h, hle⟩)
    · exact Or.inr (Or.inr ⟨h.symm, hle⟩)
  · exact Or.inl (Or.inl h)

theorem sortsBefore_trans (a b c : SessionCandidate) (h : collation.sortsBefore a b = true)
    (h' : collation.sortsBefore b c = true) : collation.sortsBefore a c = true := by
  rw [sortsBefore_iff] at h h' ⊢
  rcases h with h | ⟨h, hle⟩ <;> rcases h' with h' | ⟨h', hle'⟩
  · exact Or.inl (lt_trans h' h)
  · exact Or.inl (h' ▸ h)
  · exact Or.inl (h.symm ▸ h')
  · exact Or.inr ⟨h.trans h', collation.trans _ _ _ hle hle'⟩

/-- The locale puts the keys of two sessions, in the order in which they are found, as the code
units do. -/
def Agrees (a b : SessionCandidate) : Prop :=
  if collation.compare a.cursorKey b.cursorKey ≤ 0 then a.cursorKey < b.cursorKey
  else b.cursorKey < a.cursorKey

theorem agrees_iff (a b : SessionCandidate) :
    (if collation.sortsBefore a b then a.cursor.isBefore b.cursor = true
      else b.cursor.isBefore a.cursor = true) ↔
      (a.updatedMs = b.updatedMs → collation.Agrees a b) := by
  have hbefore : ∀ c d : SessionCandidate, c.cursor.isBefore d.cursor = true ↔
      d.updatedMs < c.updatedMs ∨ d.updatedMs = c.updatedMs ∧ c.cursorKey < d.cursorKey := by
    intro c d
    simp only [ListCursor.isBefore, Bool.or_eq_true, Bool.and_eq_true, decide_eq_true_eq]
    exact Iff.rfl
  simp only [sortsBefore_iff, hbefore]
  rcases lt_trichotomy a.updatedMs b.updatedMs with h | h | h
  · have hne : ¬ (b.updatedMs < a.updatedMs ∨
        a.updatedMs = b.updatedMs ∧ collation.compare a.cursorKey b.cursorKey ≤ 0) := by
      rintro (h' | ⟨h', -⟩)
      · exact lt_asymm h h'
      · exact ne_of_lt h h'
    rw [if_neg hne]
    exact iff_of_true (Or.inl h) fun heq => absurd heq (ne_of_lt h)
  · simp only [h, lt_irrefl, true_and, false_or, true_implies, Agrees]
  · rw [if_pos (Or.inl h)]
    exact iff_of_true (Or.inl h) fun heq => absurd heq (ne_of_gt h)

end Collation

/-! ### Cursors -/

/-- A cursor is read as the session that it was made of. -/
theorem decodeCursor_encodeCursor {host : HistoryHost} {c : SessionCandidate}
    (h : host.number c.updatedMs = .finite c.updatedMs) :
    decodeCursor host (some (encodeCursor c)) = some c.cursor := by
  have hne : nonEmpty (some (encodeCursor c)) = some (encodeCursor c) := by
    have hcursor : encodeCursor c ≠ [] := toBase64Url_ne_nil (utf8Encode_ne_nil (List.cons_ne_nil _ _))
    rw [nonEmpty, Option.filter_some, if_pos (decide_eq_true hcursor)]
  have hread : readCursor (encodeCursor c) = some (.obj [(js "v", .num (.ofInt 1)),
      (js "u", .num (.finite c.updatedMs)), (js "k", .str c.cursorKey)]) :=
    readCursor_writeCursor _ rfl
  have hloaded : (JsValue.obj [(js "v", .num (.ofInt 1)), (js "u", .num (.finite c.updatedMs)),
      (js "k", .str c.cursorKey)]).loaded host.number =
        .obj [(js "v", .num (host.number (.ofInt 1))), (js "u", .num (host.number c.updatedMs)),
          (js "k", .str c.cursorKey)] := rfl
  have hu : ∀ v u k : JsValue,
      JsObject.get [(js "v", v), (js "u", u), (js "k", k)] (js "u") = u := fun _ _ _ => rfl
  have hk : ∀ v u k : JsValue,
      JsObject.get [(js "v", v), (js "u", u), (js "k", k)] (js "k") = k := fun _ _ _ => rfl
  simp only [decodeCursor, hne, Option.bind_some, hread, hloaded, hu, hk, h]
  rfl

/-! ### Scans -/

namespace Enumerator

variable {e : Enumerator} {fs : FileSystem e.host} {now now' : Decimal} {filter : SessionListFilter}

theorem collect_failed_iff (l : List (Except InvalidTime (Option SessionCandidate))) :
    (collect l).2 = false ↔ ∀ r ∈ l, r ≠ .error .rangeError := by
  induction l with
  | nil => exact iff_of_true rfl fun _ h => absurd h List.not_mem_nil
  | cons r rest ih =>
      rw [List.forall_mem_cons]
      cases r with
      | error err =>
          cases err
          exact iff_of_false (fun h => Bool.noConfusion h) fun h => h.1 rfl
      | ok c =>
          refine ih.trans ⟨fun h => ⟨fun hc => (nomatch hc), h⟩, fun h => h.2⟩

theorem mem_collect {l : List (Except InvalidTime (Option SessionCandidate))}
    {c : SessionCandidate} (h : c ∈ (collect l).1) : .ok (some c) ∈ l := by
  induction l with
  | nil => exact absurd h List.not_mem_nil
  | cons r rest ih =>
      cases r with
      | error err => exact absurd h List.not_mem_nil
      | ok found =>
          rcases List.mem_append.mp h with hfound | hrest
          · rw [Option.mem_toList.mp hfound]
            exact List.mem_cons_self
          · exact List.mem_cons_of_mem _ (ih hrest)

theorem readSessionFile_some {path : JsString} {file : ReadSessionFile}
    (h : readSessionFile fs path = some file) :
    file.path = path ∧ ∃ stored, fs.file path = some stored ∧ stored.mtimeMs = file.mtimeMs := by
  unfold readSessionFile at h
  cases hfile : fs.file path with
  | none =>
      rw [hfile] at h
      exact nomatch h
  | some stored =>
      simp only [hfile] at h
      split at h
      · exact nomatch h
      · obtain rfl := Option.some.inj h
        exact ⟨rfl, stored, rfl, rfl⟩

/-- What `sessionCandidate` makes is of the engine, under the id, and has the file's path and
time. -/
theorem sessionCandidate_target {host : HistoryHost} {engine : HistoryEngine}
    {file : ReadSessionFile} {sessionId : JsString} {scope : ScopedCwd}
    {gitBranch cliVersion : Option JsString} {timestamp : JsValue} {title : Option JsString}
    {isSubagent : Bool} {msgCount : Nat} {c : SessionCandidate}
    (h : @sessionCandidate host now engine file sessionId scope gitBranch cliVersion timestamp title
      isSubagent msgCount = .ok (some c)) :
    c.target.engine = engine ∧ c.target.path = file.path ∧ c.target.mtime = file.mtimeMs ∧
      c.target.sessionId = sessionId := by
  unfold sessionCandidate at h
  split at h
  · exact nomatch h
  · obtain rfl := Option.some.inj (Except.ok.inj h)
    exact ⟨rfl, rfl, rfl, rfl⟩

theorem parseFound_target {allowed : List JsString} {found : FoundFile} {c : SessionCandidate}
    (h : parseFound fs now allowed found = .ok (some c)) :
    ∃ file, readSessionFile fs found.path = some file ∧ c.target.engine = found.engine ∧
      c.target.path = file.path ∧ c.target.mtime = file.mtimeMs ∧
      (found.engine = .claude → c.target.sessionId = found.sessionId) := by
  unfold parseFound at h
  split at h
  · exact nomatch h
  · rename_i file hfile
    refine ⟨file, hfile, ?_⟩
    split at h
    · rename_i hengine
      rw [hengine]
      unfold parseClaudeFile at h
      dsimp only at h
      split at h
      · exact nomatch h
      · obtain ⟨hsame, hpath, hmtime, hid⟩ := sessionCandidate_target h
        exact ⟨hsame, hpath, hmtime, fun _ => hid⟩
    · rename_i hengine
      rw [hengine]
      unfold parseCodexFile at h
      dsimp only at h
      split at h
      · exact nomatch h
      · split at h
        · split at h
          · exact nomatch h
          · obtain ⟨hsame, hpath, hmtime, -⟩ := sessionCandidate_target h
            refine ⟨hsame, hpath, hmtime, ?_⟩
            intro hc
            cases hc
        · exact nomatch h

/-- A candidate is made of the file at its path, at its time. -/
theorem candidate_file {c : SessionCandidate} (h : c ∈ (e.candidates fs now filter).1) :
    ∃ stored, fs.file c.target.path = some stored ∧ stored.mtimeMs = c.updatedMs := by
  obtain ⟨found, -, hparse⟩ := List.mem_map.mp (mem_collect h)
  obtain ⟨file, hread, -, hpath, hmtime, -⟩ := parseFound_target hparse
  obtain ⟨hfile, stored, hstored, hdate⟩ := readSessionFile_some hread
  refine ⟨stored, ?_, ?_⟩
  · rw [hpath, hfile, hstored]
  · exact hdate.trans hmtime.symm

theorem candidate_double {c : SessionCandidate} (h : c ∈ (e.candidates fs now filter).1) :
    e.host.number c.updatedMs = .finite c.updatedMs := by
  obtain ⟨stored, -, hmtime⟩ := candidate_file h
  rw [← hmtime]
  exact stored.double

/-- Of the clock a scan uses whether each file is active, and no more. -/
theorem parsed_congr (h : ∀ path stored, fs.file path = some stored →
    isActive now' stored.mtimeMs = isActive now stored.mtimeMs) :
    e.parsed fs now' filter = e.parsed fs now filter := by
  refine List.map_congr_left ?_
  intro found _
  unfold parseFound
  cases hread : readSessionFile fs found.path with
  | none => rfl
  | some file =>
      obtain ⟨-, stored, hstored, hmtime⟩ := readSessionFile_some hread
      have hactive : isActive now' file.mtimeMs = isActive now file.mtimeMs := by
        rw [← hmtime]
        exact h _ _ hstored
      have hcandidate : ∀ engine sessionId scope gitBranch cliVersion timestamp title isSubagent msgCount,
          @sessionCandidate e.host now' engine file sessionId scope gitBranch cliVersion timestamp
              title isSubagent msgCount =
            @sessionCandidate e.host now engine file sessionId scope gitBranch cliVersion timestamp
              title isSubagent msgCount := by
        intros
        unfold sessionCandidate
        rw [hactive]
      simp only [parseClaudeFile, parseCodexFile, hcandidate]

theorem scopeCwd_nil (cwd : JsString) : scopeCwd fs cwd [] = none := by
  unfold scopeCwd
  split
  · rfl
  · rw [List.filter_nil]
    rfl

/-- Without a root nothing is in scope. -/
theorem parseFound_nil (found : FoundFile) : parseFound fs now [] found = .ok none := by
  have hscope : ∀ cwd : Option JsString, (cwd.bind fun cwd => scopeCwd fs cwd []) = none := by
    intro cwd
    cases cwd with
    | none => rfl
    | some cwd => exact scopeCwd_nil cwd
  unfold parseFound
  split
  · rfl
  · split
    · simp only [parseClaudeFile, hscope]
    · simp only [parseCodexFile, hscope]
      split
      · rfl
      · exact ite_self _

theorem candidates_nil (h : realAllowlist fs e.allowlist = []) :
    e.candidates fs now filter = ([], false) := by
  unfold candidates parsed
  rw [h]
  induction (e.claudeScan fs filter).out ++ e.codexScan fs filter with
  | nil => rfl
  | cons found rest ih =>
      rw [List.map_cons, parseFound_nil, collect, ih]
      rfl

/-! ### Handles -/

theorem mem_handleFor {target : SessionHandleTarget} {table : HandleTable} :
    handleKey target ∈ (e.handleFor target table).keyToHandle := by
  unfold handleFor
  dsimp only
  split
  · rename_i h
    exact List.contains_iff_mem.mp h
  · exact List.mem_append_right _ List.mem_cons_self

/-- A key that has a handle keeps its place. -/
theorem keys_handleFor (target : SessionHandleTarget) (table : HandleTable) :
    table.keyToHandle <+: (e.handleFor target table).keyToHandle := by
  unfold handleFor
  dsimp only
  split
  · exact List.prefix_rfl
  · exact List.prefix_append _ _

theorem handleFor_keys_of_mem {target : SessionHandleTarget} {table : HandleTable}
    (h : handleKey target ∈ table.keyToHandle) :
    (e.handleFor target table).keyToHandle = table.keyToHandle := by
  unfold handleFor
  exact if_pos (List.contains_iff_mem.mpr h)

theorem keys_register (table : HandleTable) (found : List SessionCandidate) :
    table.keyToHandle <+: (e.register table found).keyToHandle := by
  induction found generalizing table with
  | nil => exact List.prefix_rfl
  | cons c rest ih => exact (keys_handleFor c.target table).trans (ih _)

theorem mem_register {table : HandleTable} {found : List SessionCandidate} {c : SessionCandidate}
    (h : c ∈ found) : handleKey c.target ∈ (e.register table found).keyToHandle := by
  induction found generalizing table with
  | nil => exact absurd h List.not_mem_nil
  | cons first rest ih =>
      rcases List.mem_cons.mp h with rfl | hrest
      · exact (keys_register _ rest).subset mem_handleFor
      · exact ih hrest

theorem register_keys_of_mem {table : HandleTable} {found : List SessionCandidate}
    (h : ∀ c ∈ found, handleKey c.target ∈ table.keyToHandle) :
    (e.register table found).keyToHandle = table.keyToHandle := by
  induction found generalizing table with
  | nil => rfl
  | cons first rest ih =>
      obtain ⟨hfirst, hrest⟩ := List.forall_mem_cons.mp h
      have hkeys := @handleFor_keys_of_mem e first.target table hfirst
      refine Eq.trans (ih ?_) hkeys
      rw [hkeys]
      exact hrest

/-- **Sessions that are found again keep their handles.** -/
theorem register_register (table : HandleTable) (found : List SessionCandidate) :
    (e.register (e.register table found) found).keyToHandle = (e.register table found).keyToHandle :=
  register_keys_of_mem fun _ hc => mem_register hc

/-- Keys are the keys of one session only, since no path holds a NUL. -/
theorem handleKey_injective {a b : SessionHandleTarget} (ha : (0 : UInt16) ∉ a.path)
    (hb : (0 : UInt16) ∉ b.path) (h : handleKey a = handleKey b) :
    a.engine = b.engine ∧ a.sessionId = b.sessionId ∧ a.path = b.path := by
  have htext : ∀ engine : HistoryEngine, (0 : UInt16) ∉ engine.text := by
    intro engine
    cases engine <;> decide
  unfold handleKey at h
  rw [← List.cons_append, ← List.append_assoc, ← List.cons_append, ← List.append_assoc] at h
  obtain ⟨hsession, hpath⟩ := append_sep_inj_last ha hb h
  obtain ⟨hengine, hid⟩ := append_sep_inj (htext _) (htext _) hsession
  refine ⟨?_, hid, hpath⟩
  generalize a.engine = x at hengine
  generalize b.engine = y at hengine
  cases x <;> cases y <;> first | rfl | exact absurd hengine (by decide)

/-! ### Pages -/

/-- The sessions that pass the filter, in order. -/
def listed (e : Enumerator) (fs : FileSystem e.host) (now : Decimal) (filter : SessionListFilter) :
    List SessionCandidate :=
  e.filtered filter (e.candidates fs now filter).1

theorem mem_listed {c : SessionCandidate} (h : c ∈ e.listed fs now filter) :
    c ∈ (e.candidates fs now filter).1 := by
  rw [listed, filtered, List.mem_insertionSort] at h
  exact (List.mem_filter.mp h).1

/-- What a call answers when no date is in the way. -/
theorem list_ok (hok : (e.candidates fs now filter).2 = false) (page : SessionListPage)
    (table : HandleTable) :
    let left := afterCursor (e.listed fs now filter) (decodeCursor e.host page.cursor)
    let limit := max 1 (min page.limit maxResponseSessions)
    let table' := e.register table (e.candidates fs now filter).1
    ∃ truncated, e.list fs now { filter, page := some page } table =
      (.ok {
        sessions := (left.take limit).map fun c => c.info (e.handleOf table' c.target)
        nextCursor := if limit < left.length then (left.take limit).getLast?.map encodeCursor else none
        truncated }, table') := by
  intro left limit table'
  unfold list
  by_cases hroots : realAllowlist fs e.allowlist = []
  · -- nothing is in scope
    have hleft : left = [] := by
      have hlisted : e.listed fs now filter = [] := by
        rw [listed, filtered, candidates_nil hroots, List.filter_nil, List.insertionSort_nil]
      show afterCursor (e.listed fs now filter) _ = []
      rw [hlisted]
      unfold afterCursor
      split
      · rfl
      · split
        · rfl
        · rfl
    have htable : table' = table := by
      show e.register table (e.candidates fs now filter).1 = table
      rw [candidates_nil hroots]
      rfl
    refine ⟨false, ?_⟩
    rw [if_pos hroots, hleft, htable, List.take_nil, List.map_nil, List.length_nil,
      if_neg (Nat.not_lt_zero _)]
  · refine ⟨decide (limit < left.length) || (e.claudeScan fs filter).capReached, ?_⟩
    rw [if_neg hroots]
    dsimp only
    rw [hok, if_neg Bool.false_ne_true]
    simp only [Option.bind_some, Option.map_some, Option.getD_some, decide_eq_true_eq]
    rfl

/-- **A call with the cursor of a session gives what is left after it.** -/
theorem afterCursor_session {cursor : Option SessionCandidate}
    (hmem : ∀ c ∈ cursor, c ∈ e.listed fs now filter) :
    afterCursor (e.listed fs now filter) (decodeCursor e.host (cursor.map encodeCursor)) =
      Keyset.rest SessionCandidate.cursor ListCursor.isBefore (e.listed fs now filter)
        (cursor.map SessionCandidate.cursor) := by
  cases cursor with
  | none => rfl
  | some c =>
      have hc := hmem c rfl
      have hcurrent : (e.listed fs now filter).any (fun d => d.cursor = c.cursor) = true :=
        List.any_eq_true.mpr ⟨c, hc, decide_eq_true rfl⟩
      rw [Option.map_some, decodeCursor_encodeCursor (candidate_double (mem_listed hc)), afterCursor,
        if_pos hcurrent]
      rfl

/-- **Following the cursors gives the pages after each session in turn.** -/
theorem followList_pages {clock : Nat → Decimal} {limit : Nat} {keys : List JsString}
    (hok : (e.candidates fs now filter).2 = false)
    (hclock : ∀ k, e.parsed fs (clock k) filter = e.parsed fs now filter) (fuel : Nat) :
    ∀ (k : Nat) (cursor : Option SessionCandidate) (table : HandleTable),
      (∀ c ∈ cursor, c ∈ e.listed fs now filter) →
      (e.register table (e.candidates fs now filter).1).keyToHandle = keys →
      (e.followList fs clock filter limit fuel k (cursor.map encodeCursor) table).map
          (fun results => results.map fun result => result.sessions) =
        (Keyset.pages SessionCandidate.cursor ListCursor.isBefore (e.listed fs now filter)
            (max 1 (min limit maxResponseSessions)) fuel (cursor.map SessionCandidate.cursor)).map
          fun pages => pages.map fun page => page.map fun c =>
            c.info (e.handles (keys.idxOf (handleKey c.target))) := by
  induction fuel with
  | zero => exact fun _ _ _ _ _ => rfl
  | succ fuel ih =>
      intro k cursor table hmem hkeys
      have hsame : e.candidates fs (clock k) filter = e.candidates fs now filter := by
        rw [candidates, hclock k, candidates]
      have hlisted : e.listed fs (clock k) filter = e.listed fs now filter := by
        rw [listed, hsame, listed]
      obtain ⟨truncated, hlist⟩ := @list_ok e fs (clock k) filter (by rw [hsame]; exact hok)
        ⟨cursor.map encodeCursor, limit⟩ table
      rw [hsame, hlisted, afterCursor_session hmem] at hlist
      have hinfos : ∀ page : List SessionCandidate,
          (page.map fun c => c.info (e.handleOf (e.register table (e.candidates fs now filter).1)
            c.target)) = page.map fun c => c.info (e.handles (keys.idxOf (handleKey c.target))) := by
        intro page
        simp only [handleOf, hkeys]
      rw [followList, hlist, Keyset.pages]
      dsimp only
      rw [hinfos]
      generalize hrest : Keyset.rest SessionCandidate.cursor ListCursor.isBefore
        (e.listed fs now filter) (cursor.map SessionCandidate.cursor) = left
      by_cases hmore : max 1 (min limit maxResponseSessions) < left.length
      · have hpage : left.take (max 1 (min limit maxResponseSessions)) ≠ [] := by
          intro hnil
          rcases List.take_eq_nil_iff.mp hnil with hzero | hleft
          · omega
          · rw [hleft] at hmore
            exact absurd hmore (Nat.not_lt_zero _)
        have hlast : ∀ c ∈ (left.take (max 1 (min limit maxResponseSessions))).getLast?,
            c ∈ e.listed fs now filter := by
          intro c hc
          have hleft : c ∈ left := List.mem_of_mem_take (List.mem_of_getLast? hc)
          rw [← hrest] at hleft
          exact Keyset.mem_of_mem_rest hleft
        obtain ⟨last, hlastEq⟩ := Option.isSome_iff_exists.mp (List.getLast?_isSome.mpr hpage)
        have hnext := ih (k + 1) (some last) (e.register table (e.candidates fs now filter).1)
          (hlastEq ▸ hlast) (by rw [register_register, hkeys])
        rw [Option.map_some, Option.map_some] at hnext
        rw [if_pos hmore, if_pos hmore, hlastEq, Option.map_some, Option.map_some]
        dsimp only
        generalize e.followList fs clock filter limit fuel (k + 1) (some (encodeCursor last))
          (e.register table (e.candidates fs now filter).1) = results at hnext ⊢
        generalize Keyset.pages SessionCandidate.cursor ListCursor.isBefore (e.listed fs now filter)
          (max 1 (min limit maxResponseSessions)) fuel (some last.cursor) = pages at hnext ⊢
        cases results with
        | none =>
            cases pages with
            | none => rfl
            | some pages => cases hnext
        | some results =>
            cases pages with
            | none => cases hnext
            | some pages => exact congrArg (fun l => some (_ :: l)) (Option.some.inj hnext)
      · rw [if_neg hmore, if_neg hmore]
        rfl

/-! ### When the pages are the list -/

/-- From no cursor, whatever handles there are and whatever the limit, following the cursors comes
to an end and gives every session that passes the filter, once and in order.  The store is the
same at each call, and no file becomes active or inactive. -/
def ListPaged (e : Enumerator) (fs : FileSystem e.host) (now : Decimal) (filter : SessionListFilter) :
    Prop :=
  ∀ (limit : Nat) (clock : Nat → Decimal) (table : HandleTable), 1 ≤ limit →
    (∀ k path stored, fs.file path = some stored →
      isActive (clock k) stored.mtimeMs = isActive now stored.mtimeMs) →
    ∀ fuel, (e.listed fs now filter).length < fuel →
      ∃ results, e.followList fs clock filter limit fuel 0 none table = some results ∧
        (results.map fun result => result.sessions).flatten =
          (e.listed fs now filter).map fun c =>
            c.info (e.handleOf (e.register table (e.candidates fs now filter).1) c.target)

/-- The condition on the sessions of the stores. -/
structure SessionsOrdered (e : Enumerator) (fs : FileSystem e.host) (now : Decimal)
    (filter : SessionListFilter) : Prop where
  /-- No file in scope has a time that is no date. -/
  dated : ∀ r ∈ e.parsed fs now filter, r ≠ .error .rangeError
  /-- Of two sessions of one time that pass the filter, the locale puts the keys, in the order in
  which they are found, as the code units do. -/
  agree : ((e.candidates fs now filter).1.filter (filter.passes e.host)).Pairwise fun a b =>
    a.updatedMs = b.updatedMs → e.collation.Agrees a b

theorem pairwise_listed_iff :
    (e.listed fs now filter).Pairwise (fun a b => a.cursor.isBefore b.cursor = true) ↔
      ((e.candidates fs now filter).1.filter (filter.passes e.host)).Pairwise fun a b =>
        a.updatedMs = b.updatedMs → e.collation.Agrees a b := by
  rw [listed, filtered, Keyset.pairwise_insertionSort_iff e.collation.sortsBefore_trans
    e.collation.sortsBefore_total]
  simp only [Collation.agrees_iff]

/-- The information of a session tells its time and key. -/
theorem cursor_of_info {table : HandleTable} {a b : SessionCandidate}
    (ha : a ∈ (e.candidates fs now filter).1) (hb : b ∈ (e.candidates fs now filter).1)
    (h : a.info (e.handleOf (e.register table (e.candidates fs now filter).1) a.target) =
      b.info (e.handleOf (e.register table (e.candidates fs now filter).1) b.target)) :
    a.cursor = b.cursor := by
  have hplace := e.handles_injective (congrArg SessionInfo.handle h)
  have hkey := (List.idxOf_inj (mem_register ha)).mp hplace
  obtain ⟨stored, hstored, hmtime⟩ := candidate_file ha
  obtain ⟨stored', hstored', hmtime'⟩ := candidate_file hb
  obtain ⟨hengine, hid, hpath⟩ := handleKey_injective
    (fs.file_path _ (Option.isSome_of_eq_some hstored))
    (fs.file_path _ (Option.isSome_of_eq_some hstored')) hkey
  rw [hpath] at hstored
  obtain rfl := Option.some.inj (hstored.symm.trans hstored')
  rw [SessionCandidate.cursor, SessionCandidate.cursor, ← hmtime, ← hmtime',
    SessionCandidate.cursorKey, SessionCandidate.cursorKey, hengine, hid]

/-- Where a date is in the way, no page is given. -/
theorem followList_failed (h : (e.candidates fs now filter).2 = true) (limit fuel : Nat)
    (table : HandleTable) :
    e.followList fs (fun _ => now) filter limit fuel 0 none table = none := by
  cases fuel with
  | zero => rfl
  | succ fuel =>
      have hroots : ¬ realAllowlist fs e.allowlist = [] := by
        intro hnil
        rw [candidates_nil hnil] at h
        exact Bool.false_ne_true h
      rw [followList, list, if_neg hroots]
      dsimp only
      rw [h, if_pos rfl]

/-- **The pages of the list are the list just when the two orders agree.** -/
theorem list_paged_iff (e : Enumerator) (fs : FileSystem e.host) (now : Decimal)
    (filter : SessionListFilter) : ListPaged e fs now filter ↔ SessionsOrdered e fs now filter := by
  constructor
  · intro h
    -- pages of one session, with a clock that stands still
    obtain ⟨results, hfollow, hsessions⟩ := h 1 (fun _ => now) ⟨[], fun _ => none⟩ (Nat.le_refl 1)
      (fun _ _ _ _ => rfl) _ (Nat.lt_succ_self _)
    have hok : (e.candidates fs now filter).2 = false := by
      cases hfailed : (e.candidates fs now filter).2 with
      | false => rfl
      | true =>
          rw [followList_failed hfailed] at hfollow
          exact nomatch hfollow
    refine ⟨(collect_failed_iff _).mp hok, pairwise_listed_iff.mp ?_⟩
    have hpages := @followList_pages e fs now filter (fun _ => now) 1 _ hok (fun _ => rfl)
      ((e.listed fs now filter).length + 1) 0 none ⟨[], fun _ => none⟩ (fun _ hc => (nomatch hc)) rfl
    rw [Option.map_none, hfollow, Option.map_some] at hpages
    obtain ⟨pages, hps, hinfos⟩ := Option.map_eq_some_iff.mp hpages.symm
    rw [← hinfos, ← List.map_flatten] at hsessions
    have hchain := Keyset.isChain_pages_one hps
    rw [Option.map_none, Option.toList_none, List.nil_append] at hchain
    have hcursors := Keyset.map_eq_of_map_eq (g := SessionCandidate.cursor) (fun a ha b hb hinfo =>
      cursor_of_info (mem_listed (Keyset.mem_of_mem_pages hps a ha)) (mem_listed hb) hinfo) hsessions
    rw [hcursors] at hchain
    have htrans : IsTrans ListCursor fun j k => j.isBefore k = true :=
      ⟨fun _ _ _ => isBefore_trans⟩
    exact List.pairwise_map.mp hchain.pairwise
  · intro h limit clock table hlimit hactive fuel hfuel
    have hok := (collect_failed_iff _).mpr h.dated
    have hclock := fun k => @parsed_congr e fs now (clock k) filter (hactive k)
    obtain ⟨pages, hps, hflatten⟩ := @Keyset.pages_flatten _ _ SessionCandidate.cursor
      ListCursor.isBefore isBefore_asymm (max 1 (min limit maxResponseSessions)) (by omega)
      (e.listed fs now filter) (pairwise_listed_iff.mpr h.agree) [] _ rfl fuel hfuel
    have hpages := @followList_pages e fs now filter clock limit _ hok hclock fuel 0 none table
      (fun _ hc => (nomatch hc)) rfl
    rw [List.getLast?_nil] at hps
    rw [hps, Option.map_some] at hpages
    obtain ⟨results, hfollow, hinfos⟩ := Option.map_eq_some_iff.mp hpages
    refine ⟨results, hfollow, ?_⟩
    rw [hinfos, ← List.map_flatten, hflatten]
    rfl

end Enumerator

/-! ### One session in two projects -/

theorem unitCompare_iff (a b : JsString) :
    (if b < a then 1 else if a = b then 0 else -1 : Int) ≤ 0 ↔ a ≤ b := by
  rw [← List.not_lt]
  by_cases h : b < a
  · rw [if_pos h]
    exact iff_of_false (by decide) (not_not_intro h)
  · rw [if_neg h]
    refine iff_of_true ?_ h
    split <;> decide

/-- The order of the code units. -/
def unitCollation : Collation where
  compare a b := if b < a then 1 else if a = b then 0 else -1
  total a b := by
    rw [unitCompare_iff, unitCompare_iff]
    exact List.le_total a b
  trans a b c h h' := by
    rw [unitCompare_iff] at h h' ⊢
    exact List.le_trans h h'

def copiedId : JsString := js "11111111-1111-4111-8111-111111111111"

def copiedHost : HistoryHost where
  sha256 := digestTable [(js "claude" ++ nul :: copiedId,
    [171, 49, 196, 136, 65, 221, 78, 138, 245, 36, 63, 203, 65, 201, 107, 211, 170, 70, 112, 153,
      111, 13, 90, 238, 145, 228, 97, 43, 76, 88, 26, 219])]
  parseDate _ := none
  number := .finite

def copiedNow : Decimal := .ofInt 1783339200000

def copiedFile : StoredFile copiedHost where
  bytes := utf8Encode (js "\x7b\"cwd\":\"/w\"\x7d")
  mtimeMs := copiedNow
  double := rfl

/-- Two projects hold a file for the session, of the same time. -/
def copiedStore : FileSystem copiedHost where
  safeReadDir dir :=
    if dir = js "/c" then [⟨js "p", .directory⟩, ⟨js "q", .directory⟩]
    else if dir = js "/c/p" ∨ dir = js "/c/q" then [⟨copiedId ++ js ".jsonl", .file⟩]
    else []
  file path :=
    if path = js "/c/p/" ++ (copiedId ++ js ".jsonl") ∨ path = js "/c/q/" ++ (copiedId ++ js ".jsonl")
    then some copiedFile else none
  file_path path h := by
    split at h
    · rename_i hpath
      rcases hpath with rfl | rfl <;> decide +kernel
    · exact absurd h Bool.false_ne_true
  realpath path := if path = js "/w" then some (js "/w") else none

def copiedEnumerator : Enumerator where
  host := copiedHost
  claudeProjectsDir := js "/c"
  codexSessionsDir := js "/x"
  allowlist := [js "/w"]
  maxSubagentFiles := none
  collation := unitCollation
  handles n := js "h_" ++ digitUnits n
  handles_injective _ _ h := digitUnits_injective (List.append_cancel_left h)

/-- The second of the two is after no cursor. -/
theorem session_skipped : ¬ copiedEnumerator.ListPaged copiedStore copiedNow {} := by
  intro h
  obtain ⟨results, hfollow, hsessions⟩ := h 1 (fun _ => copiedNow) ⟨[], fun _ => none⟩ (Nat.le_refl 1)
    (fun _ _ _ _ => rfl) 3 (by decide +kernel)
  have hcount := congrArg List.length hsessions
  have hpages : (copiedEnumerator.followList copiedStore (fun _ => copiedNow) {} 1 3 0 none
      ⟨[], fun _ => none⟩).map (fun results =>
        (results.map fun result => result.sessions).flatten.length) = some 1 := by
    decide +kernel
  have hlisted : (copiedEnumerator.listed copiedStore copiedNow {}).length = 2 := by
    decide +kernel
  rw [hfollow, Option.map_some] at hpages
  rw [List.length_map, hlisted, Option.some.inj hpages] at hcount
  exact absurd hcount (by decide)

end HuginAgent
