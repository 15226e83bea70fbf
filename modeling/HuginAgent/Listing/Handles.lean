/-
Handles of sessions, `src/sessions/enumerator.ts`.

A handle is bound to an engine, a session and a path: it is drawn when a session is first found,
and every later scan finds it again by the key that the three make.  So handles keep apart what
keys keep apart (`handlesBound_iff`).  The parts of a key are joined by NUL, which no file's path
holds; what a fork could hold is looked at in `Listing/Binding.lean`.

What a handle was given for is no promise.  It is checked again whenever it is used, against the
file system as it is then (`validateHandle_eq_some_iff`).
-/
import HuginAgent.History.Bound
import HuginAgent.Js.Normal
import HuginAgent.Listing.Paging
import HuginAgent.Sessions.ResumeManager

namespace HuginAgent

/-! ### The file system at the time of use -/

/-- What `statSync` tells of what a path leads to. -/
structure FileStat where
  isFile : Bool
  mtimeMs : Decimal
  size : Nat

structure SessionFs (host : HistoryHost) extends FileSystem host where
  /-- Symbolic links are followed. -/
  statSync : JsString → Option FileStat
  /-- A path with a NUL is refused before it is looked up. -/
  stat_path : ∀ path, (statSync path).isSome → (0 : UInt16) ∉ path
  entryName : ∀ dir, ∀ entry ∈ safeReadDir dir, IsEntryName entry.name

/-- What a handle is bound to. -/
def SessionHandleTarget.triple (target : SessionHandleTarget) : HistoryEngine × JsString × JsString :=
  (target.engine, target.sessionId, target.path)

inductive HistoryRefusal
  | handleInvalid
  | fileUnreadable
  | payloadTooLarge
  | cursorInvalid
deriving DecidableEq

namespace Enumerator

variable (e : Enumerator)

def resolveHandle (handle : JsString) (table : HandleTable) : Option SessionHandleTarget :=
  table.handleToTarget handle

def validateHandle (fs : SessionFs e.host) (handle : JsString) (table : HandleTable) :
    Option SessionHandleTarget :=
  match resolveHandle handle table with
  | none => none
  | some target =>
      match fs.statSync target.path with
      | none => none
      | some st =>
          if st.isFile = false then none
          else
            match scopeCwd fs.toFileSystem target.cwd (realAllowlist fs.toFileSystem e.allowlist) with
            | none => none
            | some scope =>
                if scope.abs ≠ target.cwd then none else some { target with mtime := st.mtimeMs }

def readHistory (fs : SessionFs e.host) (handle : JsString) (opts : HistoryPageOpts)
    (table : HandleTable) : Except HistoryRefusal HistoryPage :=
  match e.validateHandle fs handle table with
  | none => .error .handleInvalid
  | some target =>
      match fs.statSync target.path with
      | none => .error .fileUnreadable
      | some st =>
          if maxSessionBytes < st.size then .error .payloadTooLarge
          else
            match readSessionFile fs.toFileSystem target.path with
            | none => .error .fileUnreadable
            | some file =>
                match readSessionHistory e.host target.engine file.content target.sessionId opts
                    (handleKey target) with
                | .error _ => .error .cursorInvalid
                | .ok page => .ok page

/-- The handle, and the table that has it. -/
def registerForked (target : SessionHandleTarget) (table : HandleTable) : JsString × HandleTable :=
  (e.handleOf (e.handleFor target table) target, e.handleFor target table)

/-! ### Calls -/

inductive Call
  | list (fs : FileSystem e.host) (now : Decimal) (req : SessionListRequest)
  | registerForked (target : SessionHandleTarget)

def emptyTable : HandleTable := ⟨[], fun _ => none⟩

def call (table : HandleTable) : e.Call → HandleTable
  | .list fs now req => (e.list fs now req table).2
  | .registerForked target => (e.registerForked target table).2

/-- What a call draws or finds a handle for. -/
def targets : e.Call → List SessionHandleTarget
  | .list fs now req =>
      if realAllowlist fs e.allowlist = [] then []
      else (e.candidates fs now req.filter).1.map fun c => c.target
  | .registerForked target => [target]

/-- The table after some calls. -/
def tableAfter (calls : List e.Call) : HandleTable := Machine.run e.call emptyTable calls

/-- Everything that has been given a handle. -/
def given (calls : List e.Call) : List SessionHandleTarget := calls.flatMap e.targets

/-- In the course of the calls the handle was given out for the target. -/
def GivenOut (calls : List e.Call) (handle : JsString) (target : SessionHandleTarget) : Prop :=
  ∃ before c, before ++ [c] <+: calls ∧ target ∈ e.targets c ∧
    handle = e.handleOf (e.tableAfter (before ++ [c])) target

/-- Handles are bound to what they were given out for. -/
structure HandlesBound (calls : List e.Call) : Prop where
  resolves : ∀ handle target, e.GivenOut calls handle target →
    ∃ current, resolveHandle handle (e.tableAfter calls) = some current ∧
      current.triple = target.triple
  reused : ∀ handle handle' target target', e.GivenOut calls handle target →
    e.GivenOut calls handle' target' → target.triple = target'.triple → handle = handle'
  separate : ∀ handle handle' target target', e.GivenOut calls handle target →
    e.GivenOut calls handle' target' → target.triple ≠ target'.triple → handle ≠ handle'

/-- No two sessions that differ have one key. -/
def KeysTell (targets : List SessionHandleTarget) : Prop :=
  ∀ a ∈ targets, ∀ b ∈ targets, handleKey a = handleKey b → a.triple = b.triple

variable {e}

/-! ### The table -/

theorem handleKey_eq_of_triple {a b : SessionHandleTarget} (h : a.triple = b.triple) :
    handleKey a = handleKey b := by
  simp only [SessionHandleTarget.triple, Prod.mk.injEq] at h
  rw [handleKey, handleKey, h.1, h.2.1, h.2.2]

/-- A key that has a handle keeps it. -/
theorem handleOf_extended {table table' : HandleTable} {target : SessionHandleTarget}
    (hextends : table.keyToHandle <+: table'.keyToHandle)
    (h : handleKey target ∈ table.keyToHandle) :
    e.handleOf table' target = e.handleOf table target := by
  obtain ⟨more, hmore⟩ := hextends
  rw [handleOf, handleOf, ← hmore, List.idxOf_append_of_mem h]

theorem handleOf_inj {table : HandleTable} {a b : SessionHandleTarget}
    (ha : handleKey a ∈ table.keyToHandle) :
    e.handleOf table a = e.handleOf table b ↔ handleKey a = handleKey b := by
  rw [handleOf, handleOf, e.handles_injective.eq_iff, List.idxOf_inj ha]

/-- What a table knows of the targets it was made from. -/
structure Keyed (e : Enumerator) (table : HandleTable) (targets : List SessionHandleTarget) : Prop where
  mem : ∀ t ∈ targets, handleKey t ∈ table.keyToHandle
  resolves : ∀ t ∈ targets, ∃ current ∈ targets,
    table.handleToTarget (e.handleOf table t) = some current ∧ handleKey current = handleKey t

theorem Keyed.handleFor {table : HandleTable} {targets : List SessionHandleTarget}
    (h : Keyed e table targets) (target : SessionHandleTarget) :
    Keyed e (e.handleFor target table) (targets ++ [target]) := by
  have hextends := @keys_handleFor e target table
  have hmem : handleKey target ∈ (e.handleFor target table).keyToHandle := mem_handleFor
  have hself : (e.handleFor target table).handleToTarget
      (e.handleOf (e.handleFor target table) target) = some target := Function.update_self _ _ _
  refine ⟨?_, ?_⟩
  · intro t ht
    rcases List.mem_append.mp ht with ht | ht
    · exact hextends.subset (h.mem t ht)
    · obtain rfl := List.mem_singleton.mp ht
      exact hmem
  · intro t ht
    by_cases hkey : handleKey t = handleKey target
    · refine ⟨target, List.mem_append_right _ List.mem_cons_self, ?_, hkey.symm⟩
      rw [handleOf, hkey, ← handleOf]
      exact hself
    · rcases List.mem_append.mp ht with ht | ht
      · obtain ⟨current, hcurrent, hresolves, hcurrentKey⟩ := h.resolves t ht
        refine ⟨current, List.mem_append_left _ hcurrent, ?_, hcurrentKey⟩
        have hstable : e.handleOf (e.handleFor target table) t = e.handleOf table t :=
          handleOf_extended hextends (h.mem t ht)
        have hne : e.handleOf (e.handleFor target table) t ≠
            e.handleOf (e.handleFor target table) target :=
          fun heq => hkey ((handleOf_inj (hextends.subset (h.mem t ht))).mp heq)
        rw [← hresolves, ← hstable]
        exact Function.update_of_ne hne _ _
      · obtain rfl := List.mem_singleton.mp ht
        exact absurd rfl hkey

theorem Keyed.foldl {table : HandleTable} {targets : List SessionHandleTarget}
    (h : Keyed e table targets) (more : List SessionHandleTarget) :
    Keyed e (more.foldl (fun table t => e.handleFor t table) table) (targets ++ more) := by
  induction more generalizing table targets with
  | nil => exact (List.append_nil targets).symm ▸ h
  | cons t more ih =>
      have hnext := ih (h.handleFor t)
      rw [List.append_assoc] at hnext
      exact hnext

theorem keys_foldl (table : HandleTable) (targets : List SessionHandleTarget) :
    table.keyToHandle <+:
      (targets.foldl (fun table t => e.handleFor t table) table).keyToHandle := by
  induction targets generalizing table with
  | nil => exact List.prefix_rfl
  | cons t rest ih => exact (keys_handleFor t table).trans (ih _)

/-- A call does nothing to the table but what it does for its targets. -/
theorem call_eq (table : HandleTable) (c : e.Call) :
    e.call table c = (e.targets c).foldl (fun table t => e.handleFor t table) table := by
  cases c with
  | list fs now req =>
      rw [call, targets, list]
      by_cases hempty : realAllowlist fs e.allowlist = []
      · rw [if_pos hempty, if_pos hempty]
        rfl
      · rw [if_neg hempty, if_neg hempty, List.foldl_map]
        dsimp only
        split <;> rfl
  | registerForked target => rfl

theorem tableAfter_concat (calls : List e.Call) (c : e.Call) :
    e.tableAfter (calls ++ [c]) =
      (e.targets c).foldl (fun table t => e.handleFor t table) (e.tableAfter calls) := by
  rw [← call_eq, tableAfter, Machine.run_append]
  rfl

theorem keyed_tableAfter (calls : List e.Call) : Keyed e (e.tableAfter calls) (e.given calls) := by
  induction calls using List.reverseRecOn with
  | nil => exact ⟨nofun, nofun⟩
  | append_singleton calls c ih =>
      rw [tableAfter_concat, given, List.flatMap_append, List.flatMap_singleton]
      exact ih.foldl (e.targets c)

theorem keys_tableAfter {calls more : List e.Call} (h : calls <+: more) :
    (e.tableAfter calls).keyToHandle <+: (e.tableAfter more).keyToHandle := by
  obtain ⟨rest, rfl⟩ := h
  induction rest using List.reverseRecOn with
  | nil => rw [List.append_nil]
  | append_singleton rest c ih =>
      rw [← List.append_assoc, tableAfter_concat]
      exact ih.trans (keys_foldl _ _)

/-! ### Binding -/

theorem mem_given {calls : List e.Call} {before : List e.Call} {c : e.Call}
    {target : SessionHandleTarget} (hextends : before ++ [c] <+: calls) (h : target ∈ e.targets c) :
    target ∈ e.given (before ++ [c]) ∧ target ∈ e.given calls := by
  have hhere : target ∈ e.given (before ++ [c]) :=
    List.mem_flatMap.mpr ⟨c, List.mem_append_right _ List.mem_cons_self, h⟩
  refine ⟨hhere, ?_⟩
  obtain ⟨rest, rfl⟩ := hextends
  rw [given, List.flatMap_append]
  exact List.mem_append_left _ hhere

/-- A handle is the one that the target has at the end. -/
theorem givenOut_iff {calls : List e.Call} {handle : JsString} {target : SessionHandleTarget} :
    e.GivenOut calls handle target ↔
      target ∈ e.given calls ∧ handle = e.handleOf (e.tableAfter calls) target := by
  constructor
  · rintro ⟨before, c, hextends, htarget, rfl⟩
    obtain ⟨hhere, hall⟩ := mem_given hextends htarget
    refine ⟨hall, (handleOf_extended (keys_tableAfter hextends) ?_).symm⟩
    exact (keyed_tableAfter _).mem target hhere
  · rintro ⟨hall, rfl⟩
    obtain ⟨c, hc, htarget⟩ := List.mem_flatMap.mp hall
    obtain ⟨before, rest, hsplit⟩ := List.append_of_mem hc
    have hextends : before ++ [c] <+: calls := ⟨rest, by rw [hsplit, List.append_assoc]; rfl⟩
    refine ⟨before, c, hextends, htarget, handleOf_extended (keys_tableAfter hextends) ?_⟩
    exact (keyed_tableAfter _).mem target (mem_given hextends htarget).1

/-- **Handles are bound as far as keys tell.** -/
theorem handlesBound_iff (calls : List e.Call) :
    e.HandlesBound calls ↔ KeysTell (e.given calls) := by
  have hkeyed := keyed_tableAfter calls
  constructor
  · intro h a ha b hb hkey
    by_contra hne
    refine h.separate _ _ a b (givenOut_iff.mpr ⟨ha, rfl⟩) (givenOut_iff.mpr ⟨hb, rfl⟩) hne ?_
    exact (handleOf_inj (hkeyed.mem a ha)).mpr hkey
  · intro h
    refine ⟨?_, ?_, ?_⟩
    · intro handle target hgiven
      obtain ⟨htarget, rfl⟩ := givenOut_iff.mp hgiven
      obtain ⟨current, hcurrent, hresolves, hkey⟩ := hkeyed.resolves target htarget
      exact ⟨current, hresolves, h current hcurrent target htarget hkey⟩
    · intro handle handle' target target' hgiven hgiven' htriple
      obtain ⟨-, rfl⟩ := givenOut_iff.mp hgiven
      obtain ⟨-, rfl⟩ := givenOut_iff.mp hgiven'
      rw [handleOf, handleOf, handleKey_eq_of_triple htriple]
    · intro handle handle' target target' hgiven hgiven' htriple heq
      obtain ⟨htarget, rfl⟩ := givenOut_iff.mp hgiven
      obtain ⟨htarget', rfl⟩ := givenOut_iff.mp hgiven'
      exact htriple (h target htarget target' htarget' ((handleOf_inj (hkeyed.mem target htarget)).mp heq))

theorem path_of_mem_targets {fs : FileSystem e.host} {now : Decimal} {req : SessionListRequest}
    {target : SessionHandleTarget} (h : target ∈ e.targets (.list fs now req)) :
    (0 : UInt16) ∉ target.path := by
  rw [targets] at h
  split at h
  · exact absurd h List.not_mem_nil
  · obtain ⟨c, hc, rfl⟩ := List.mem_map.mp h
    obtain ⟨stored, hstored, -⟩ := candidate_file hc
    exact fs.file_path _ (Option.isSome_of_eq_some hstored)

/-- The sessions of a list have the handles that were given out for them. -/
theorem givenOut_of_listed {calls : List e.Call} {fs : FileSystem e.host} {now : Decimal}
    {req : SessionListRequest} {result : SessionListResult}
    (h : (e.list fs now req (e.tableAfter calls)).1 = .ok result) :
    ∀ info ∈ result.sessions, ∃ c : SessionCandidate, info = c.info info.handle ∧
      e.GivenOut (calls ++ [.list fs now req]) info.handle c.target := by
  intro info hinfo
  have htable : e.tableAfter (calls ++ [.list fs now req]) =
      (e.list fs now req (e.tableAfter calls)).2 := by
    rw [tableAfter, Machine.run_append]
    rfl
  rw [list] at h htable
  by_cases hempty : realAllowlist fs e.allowlist = []
  · rw [if_pos hempty] at h
    obtain rfl := Except.ok.inj h
    exact absurd hinfo List.not_mem_nil
  · rw [if_neg hempty] at h htable
    dsimp only at h htable
    split at h
    · cases h
    · rename_i hfailed
      rw [if_neg hfailed] at htable
      obtain rfl := Except.ok.inj h
      obtain ⟨c, hc, rfl⟩ := List.mem_map.mp hinfo
      refine ⟨c, rfl, givenOut_iff.mpr ⟨?_, ?_⟩⟩
      · rw [given, List.flatMap_append, List.flatMap_singleton]
        refine List.mem_append_right _ ?_
        rw [targets, if_neg hempty]
        refine List.mem_map_of_mem ?_
        have hleft := List.mem_of_mem_take hc
        have hlisted : c ∈ e.filtered req.filter (e.candidates fs now req.filter).1 := by
          unfold afterCursor at hleft
          split at hleft
          · exact hleft
          · split at hleft
            · exact List.mem_of_mem_filter hleft
            · exact hleft
        rw [filtered, List.mem_insertionSort] at hlisted
        exact List.mem_of_mem_filter hlisted
      · rw [htable]
        rfl

theorem givenOut_registerForked (calls : List e.Call) (target : SessionHandleTarget) :
    e.GivenOut (calls ++ [.registerForked target])
      (e.registerForked target (e.tableAfter calls)).1 target := by
  refine ⟨calls, .registerForked target, List.prefix_rfl, List.mem_singleton_self _, ?_⟩
  rw [tableAfter_concat]
  rfl

/-! ### Validation -/

theorem scopeCwd_some {fs : FileSystem e.host} {cwd : JsString} {allowed : List JsString}
    {scope : ScopedCwd} (h : scopeCwd fs cwd allowed = some scope) :
    fs.realpath cwd = some scope.abs ∧
      ∃ root ∈ allowed, scope.abs = root ∨ root ++ [sep] <+: scope.abs := by
  unfold scopeCwd at h
  split at h
  · exact nomatch h
  · rename_i real hreal
    dsimp only at h
    split at h
    · exact nomatch h
    · rename_i root hroot
      obtain rfl := Option.some.inj h
      refine ⟨hreal, root, ?_⟩
      have hhead := (Option.filter_eq_some_iff.mp hroot).1
      have hmem := List.mem_of_mem_head? hhead
      rw [List.mem_insertionSort] at hmem
      obtain ⟨hallowed, hunder⟩ := List.mem_filter.mp hmem
      rw [Bool.or_eq_true, decide_eq_true_eq, List.isPrefixOf_iff_prefix] at hunder
      exact ⟨hallowed, hunder⟩

/-- The directory is its own real path and in an allow-listed root. -/
def CwdInScope (e : Enumerator) (fs : FileSystem e.host) (cwd : JsString) : Prop :=
  fs.realpath cwd = some cwd ∧
    ∃ root ∈ realAllowlist fs e.allowlist, cwd = root ∨ root ++ [sep] <+: cwd

/-- **A handle is good only for what it leads to now.** -/
theorem validateHandle_some {fs : SessionFs e.host} {handle : JsString} {table : HandleTable}
    {target : SessionHandleTarget} (h : e.validateHandle fs handle table = some target) :
    ∃ stored st, resolveHandle handle table = some stored ∧
      target = { stored with mtime := st.mtimeMs } ∧
      fs.statSync stored.path = some st ∧ st.isFile = true ∧
      e.CwdInScope fs.toFileSystem stored.cwd := by
  unfold validateHandle at h
  split at h
  · exact nomatch h
  · rename_i stored hstored
    split at h
    · exact nomatch h
    · rename_i st hst
      obtain ⟨hfile, h⟩ := Option.ite_none_left_eq_some.mp h
      split at h
      · exact nomatch h
      · rename_i scope hscope
        obtain ⟨habs, h⟩ := Option.ite_none_left_eq_some.mp h
        rw [not_not] at habs
        obtain ⟨hreal, hroot⟩ := scopeCwd_some hscope
        rw [habs] at hreal hroot
        exact ⟨stored, st, hstored, (Option.some.inj h).symm, hst, Bool.eq_true_of_not_eq_false hfile,
          hreal, hroot⟩

/-- What a turn reads of a target. -/
def toSession (target : SessionHandleTarget) : SessionTarget where
  engine :=
    match target.engine with
    | .claude => .claude
    | .codex => .codex
  sessionId := target.sessionId
  cwd := target.cwd

/-- A handle in use. -/
structure CheckedWhenUsed (e : Enumerator) : Prop where
  validated : ∀ (fs : SessionFs e.host) handle table target,
    e.validateHandle fs handle table = some target →
      ∃ stored st, resolveHandle handle table = some stored ∧
        target = { stored with mtime := st.mtimeMs } ∧
        fs.statSync stored.path = some st ∧ st.isFile = true ∧
        e.CwdInScope fs.toFileSystem stored.cwd
  /-- A session is refused whose directory is another one now, or out of scope, though its handle
  is known. -/
  refused : ∀ (fs : SessionFs e.host) handle table stored,
    resolveHandle handle table = some stored → ¬ e.CwdInScope fs.toFileSystem stored.cwd →
      e.validateHandle fs handle table = none
  /-- No history is read of a handle that is not valid. -/
  history : ∀ (fs : SessionFs e.host) handle opts table,
    e.validateHandle fs handle table = none →
      e.readHistory fs handle opts table = .error .handleInvalid
  /-- And no turn is started with it. -/
  turn : ∀ (fs : SessionFs e.host) handle table (env : SessionEnv) w req reply,
    e.validateHandle fs handle table = none →
      (SessionResumeManager.startTurn env w req
        ((e.validateHandle fs handle table).map toSession) reply).calls = w.calls

theorem checkedWhenUsed (e : Enumerator) : e.CheckedWhenUsed := by
  refine ⟨fun fs handle table target h => validateHandle_some h, ?_, ?_, ?_⟩
  · intro fs handle table stored hstored hscope
    by_contra hvalid
    obtain ⟨target, htarget⟩ := Option.ne_none_iff_exists'.mp hvalid
    obtain ⟨stored', st, hstored', -, -, -, hscope'⟩ := validateHandle_some htarget
    obtain rfl := Option.some.inj (hstored.symm.trans hstored')
    exact hscope hscope'
  · intro fs handle opts table h
    rw [readHistory, h]
  · intro fs handle table env w req reply h
    rw [h]
    rfl

end Enumerator

end HuginAgent
