/-
Where the paths of handles lie.

The scans descend from the directory of a store by the names they read, so what they find lies
below it.  A fork is put next to the session it was forked from, under the id that the engine
reports: `registerFork` joins the two, and an id that climbs higher than the session lies in the
store leaves it.  `TurnAction` tells of the daemon what can touch the table of handles, and
`forks_stay_iff` says of a run when every path in it stays where it belongs.
-/
import HuginAgent.Listing.Handles

namespace HuginAgent

open Enumerator

/-! ### The scans stay in their stores -/

/-- A path that goes on from the names of a directory. -/
def InStore (dir path : JsString) : Prop :=
  ∃ more, more ≠ [] ∧ (∀ n ∈ more, IsEntryName n) ∧ path = absPath (namesOf dir ++ more)

namespace InStore

variable {dir path : JsString}

theorem names {more : List JsString} (h : ∀ n ∈ more, IsEntryName n) :
    ∀ n ∈ namesOf dir ++ more, IsEntryName n :=
  List.forall_mem_append.mpr ⟨isEntryName_namesOf dir, h⟩

theorem isBelow (hdir : IsAbsolute dir) (h : InStore dir path) : IsBelow dir path := by
  obtain ⟨more, hmore, hnames, rfl⟩ := h
  exact (isBelow_iff hdir (List.append_ne_nil_of_right_ne_nil _ hmore) (names hnames)).mpr
    ⟨more, hmore, rfl⟩

theorem isAbsolute (h : InStore dir path) : IsAbsolute path := by
  obtain ⟨more, -, -, rfl⟩ := h
  exact isAbsolute_absPath _

theorem join {name : JsString} (h : InStore dir path) (hname : IsEntryName name) :
    InStore dir (joinPath path name) := by
  obtain ⟨more, hmore, hnames, rfl⟩ := h
  refine ⟨more ++ [name], List.append_ne_nil_of_left_ne_nil hmore _, ?_, ?_⟩
  · exact List.forall_mem_append.mpr ⟨hnames, List.forall_mem_singleton.mpr hname⟩
  · rw [joinPath_name (isAbsolute_absPath _) hname, namesOf_absPath (names hnames), List.append_assoc]

theorem first {name : JsString} (hdir : IsAbsolute dir) (hname : IsEntryName name) :
    InStore dir (joinPath dir name) :=
  ⟨[name], List.cons_ne_nil _ _, List.forall_mem_singleton.mpr hname, joinPath_name hdir hname⟩

end InStore

section

variable {host : HistoryHost} {fs : SessionFs host} {dir : JsString}

/-- The id is the beginning of the name of the file. -/
def NamedAfter (path sessionId : JsString) : Prop :=
  ∃ parent name, IsAbsolute parent ∧ IsEntryName name ∧ path = joinPath parent name ∧
    sessionId <+: name

theorem isPrefix_of_beforeSuffix {suffix name stem : JsString}
    (h : beforeSuffix suffix name = some stem) : stem <+: name := by
  unfold beforeSuffix at h
  split at h
  · obtain rfl := Option.some.inj h
    exact List.take_prefix _ _
  · cases h

/-- All that a scan of Claude's store has found. -/
def FoundInStore (dir : JsString) (st : ClaudeScan) : Prop :=
  ∀ f ∈ st.out, f.engine = .claude ∧ InStore dir f.path ∧ NamedAfter f.path f.sessionId

theorem FoundInStore.push {st : ClaudeScan} (h : FoundInStore dir st) {path sessionId : JsString}
    {isSubagent : Bool} (hpath : InStore dir path) (hnamed : NamedAfter path sessionId) :
    FoundInStore dir (st.push ⟨.claude, path, sessionId, isSubagent⟩) :=
  List.forall_mem_append.mpr ⟨h, List.forall_mem_singleton.mpr ⟨rfl, hpath, hnamed⟩⟩

theorem foundInStore_subagentFile {maxFiles : Nat} {parent name : JsString} {st : ClaudeScan}
    (h : FoundInStore dir st) (hparent : IsAbsolute parent) (hname : IsEntryName name)
    (hpath : InStore dir (joinPath parent name)) :
    FoundInStore dir (scanSubagentFile maxFiles (joinPath parent name) name st) := by
  unfold scanSubagentFile
  split
  · exact h
  · split
    · exact h
    · dsimp only
      split
      · exact h
      · rename_i sessionId hid
        refine FoundInStore.push h hpath ⟨parent, name, hparent, hname, rfl, ?_⟩
        exact isPrefix_of_beforeSuffix (Option.filter_eq_some_iff.mp hid).1

theorem foundInStore_subagentDir {maxFiles : Nat} (levels : Nat) {path : JsString} {st : ClaudeScan}
    (h : FoundInStore dir st) (hpath : InStore dir path) :
    FoundInStore dir (scanClaudeSubagentDir fs.toFileSystem maxFiles levels path st) := by
  induction levels generalizing path st with
  | zero => exact h
  | succ levels ih =>
      unfold scanClaudeSubagentDir
      split
      · exact h
      · refine List.foldlRecOn _ _ h fun st hst entry hentry => ?_
        have hname := fs.entryName path entry hentry
        split
        · exact hst
        · dsimp only
          split
          · exact ih hst (hpath.join hname)
          · exact foundInStore_subagentFile hst hpath.isAbsolute hname (hpath.join hname)
          · exact hst

theorem foundInStore_claude (hdir : IsAbsolute dir) (maxFiles : Nat) (includeSubagents : Bool) :
    FoundInStore dir (scanClaude fs.toFileSystem maxFiles dir includeSubagents) := by
  have hsubagents : IsEntryName (js "subagents") := ⟨by decide, by decide, by decide, by decide⟩
  unfold scanClaude
  refine List.foldlRecOn _ _ (fun f hf => absurd hf List.not_mem_nil) fun st hst project hproject => ?_
  have hprojectDir := InStore.first hdir (fs.entryName dir project hproject)
  split
  · refine List.foldlRecOn _ _ hst fun st hst entry hentry => ?_
    have hname := fs.entryName _ entry hentry
    have hpath := hprojectDir.join hname
    unfold scanClaudeEntry
    dsimp only
    split
    · split
      · exact hst
      · rename_i sessionId hid
        refine FoundInStore.push hst hpath ⟨_, _, hprojectDir.isAbsolute, hname, rfl, ?_⟩
        exact isPrefix_of_beforeSuffix (Option.filter_eq_some_iff.mp hid).1
    · split
      · exact foundInStore_subagentDir depthLevels hst (hpath.join hsubagents)
      · exact hst
    · exact hst
  · exact hst

theorem foundInStore_codexDir (levels : Nat) {path : JsString}
    (hpath : ∀ {name : JsString}, IsEntryName name → InStore dir (joinPath path name)) :
    ∀ f ∈ scanCodexDir fs.toFileSystem levels path, f.engine = .codex ∧ InStore dir f.path := by
  induction levels generalizing path with
  | zero => exact nofun
  | succ levels ih =>
      unfold scanCodexDir
      intro f hf
      obtain ⟨entry, hentry, hf⟩ := List.mem_flatMap.mp hf
      have hname := hpath (fs.entryName path entry hentry)
      dsimp only at hf
      split at hf
      · exact ih (fun h => hname.join h) f hf
      · split at hf
        · exact absurd hf List.not_mem_nil
        · obtain rfl := List.mem_singleton.mp hf
          exact ⟨rfl, hname⟩
      · exact absurd hf List.not_mem_nil

end

/-! ### Turns and forks -/

namespace Enumerator

variable (e : Enumerator)

/-- The directory of an engine's store. -/
def storeDir : HistoryEngine → JsString
  | .claude => e.claudeProjectsDir
  | .codex => e.codexSessionsDir

/-- As the daemon is started: both are below the home directory. -/
structure AbsoluteStores : Prop where
  claude : IsAbsolute e.claudeProjectsDir
  codex : IsAbsolute e.codexSessionsDir

/-- Where a fork of a session goes. -/
def forkPath (target : SessionHandleTarget) (newSessionId : JsString) : JsString :=
  joinPath (dirname target.path) (newSessionId ++ js ".jsonl")

def registerFork (target : SessionHandleTarget) (newSessionId : JsString) (now : Decimal)
    (table : HandleTable) : JsString × HandleTable :=
  e.registerForked
    { target with sessionId := newSessionId, path := forkPath target newSessionId, mtime := now } table

end Enumerator

/-- The table of handles, and the targets of the turns that are running. -/
structure TurnWorld where
  table : HandleTable
  turns : List SessionHandleTarget

/-- What the daemon does with handles. -/
inductive TurnAction (e : Enumerator)
  | list (fs : SessionFs e.host) (now : Decimal) (req : SessionListRequest)
  | readHistory (fs : SessionFs e.host) (handle : JsString) (opts : HistoryPageOpts)
  /-- A turn is accepted, if the handle is good. -/
  | startTurn (fs : SessionFs e.host) (handle : JsString)
  /-- The run of a turn calls back that it is done. -/
  | endTurn (turn : Nat) (newSessionId : Option JsString) (now : Decimal)

namespace TurnWorld

variable (e : Enumerator)

def start : TurnWorld := ⟨emptyTable, []⟩

/-- `onDone`: the plan of a Claude session is to fork it. -/
def finishTurn (w : TurnWorld) (target : SessionHandleTarget) (newSessionId : Option JsString)
    (now : Decimal) : TurnWorld :=
  match target.engine, newSessionId with
  | .claude, some id =>
      if id = [] then w else { w with table := (e.registerFork target id now w.table).2 }
  | _, _ => w

def step (w : TurnWorld) : TurnAction e → TurnWorld
  | .list fs now req => { w with table := (e.list fs.toFileSystem now req w.table).2 }
  | .readHistory _ _ _ => w
  | .startTurn fs handle =>
      match e.validateHandle fs handle w.table with
      | none => w
      | some target => { w with turns := w.turns ++ [target] }
  | .endTurn turn newSessionId now =>
      match w.turns[turn]? with
      | none => w
      | some target => finishTurn e { w with turns := w.turns.eraseIdx turn } target newSessionId now

def run (acts : List (TurnAction e)) : TurnWorld := Machine.run (step e) start acts

/-- Every path in the table is below the store of its engine. -/
def PathsStay (w : TurnWorld) : Prop :=
  ∀ handle target, w.table.handleToTarget handle = some target →
    IsBelow (e.storeDir target.engine) target.path

/-- How far below the store a session lies. -/
def levelsBelow (target : SessionHandleTarget) : Nat :=
  (namesOf target.path).length - 1 - (namesOf (e.storeDir target.engine)).length

/-- An id does not lead out of the store: it climbs no higher than the session lies in it, or it
names again what it has climbed out of, and goes on from there. -/
def IdStays (target : SessionHandleTarget) (newSessionId : JsString) : Prop :=
  let id := Relative.ofPath (newSessionId ++ js ".jsonl")
  let store := namesOf (e.storeDir target.engine)
  let left := store.drop (store.length - (id.climbs - levelsBelow e target))
  left <+: id.names.reverse ∧ left ≠ id.names.reverse

/-- No fork leads out of the store. -/
def ForkStays (w : TurnWorld) : TurnAction e → Prop
  | .endTurn turn (some id) _ =>
      ∀ target, w.turns[turn]? = some target → target.engine = .claude → id ≠ [] →
        IdStays e target id
  | _ => True

variable {e}

/-! ### The path of a fork -/

/-- What is added to a text without a separator is added to its last segment. -/
theorem segments_suffix (text : JsString) :
    ∃ init last, sep ∉ last ∧
      ∀ suffix, sep ∉ suffix → segments (text ++ suffix) = init ++ [last ++ suffix] := by
  refine @splitAll_ind _ _ sep (fun text _ => ∃ init last, sep ∉ last ∧
    ∀ suffix, sep ∉ suffix → segments (text ++ suffix) = init ++ [last ++ suffix]) ?_ ?_ text
  · intro text htext
    refine ⟨[], text, htext, fun suffix h => segments_of_notMem ?_⟩
    exact fun hmem => (List.mem_append.mp hmem).elim htext h
  · rintro line rest hline ⟨init, last, hlast, ih⟩
    refine ⟨line :: init, last, hlast, fun suffix h => ?_⟩
    rw [List.append_assoc, List.cons_append, segments_append, segments_of_notMem hline, ih suffix h]
    rfl

/-- A segment that does not end in a dot is a name. -/
theorem isEntryName_suffix {last suffix : JsString} (hlast : sep ∉ last) (h : sep ∉ suffix)
    (hne : suffix ≠ []) (hdot : suffix.getLast? ≠ some (unit '.')) : IsEntryName (last ++ suffix) := by
  have hend : (last ++ suffix).getLast? ≠ some (unit '.') := by
    rwa [List.getLast?_append_of_ne_nil _ hne]
  refine ⟨List.append_ne_nil_of_right_ne_nil _ hne, ?_, ?_, ?_⟩
  · exact fun hmem => (List.mem_append.mp hmem).elim hlast h
  · intro heq
    exact hend (heq ▸ rfl)
  · intro heq
    exact hend (heq ▸ rfl)

/-- The last name of a fork is that of a file. -/
theorem names_ne_nil (id : JsString) : (Relative.ofPath (id ++ js ".jsonl")).names ≠ [] := by
  obtain ⟨init, last, hlast, hsegments⟩ := segments_suffix id
  rw [Relative.ofPath, hsegments (js ".jsonl") (by decide), List.foldl_append, List.foldl_cons,
    List.foldl_nil,
    Relative.push_name (isEntryName_suffix hlast (by decide) (by decide) (by decide))]
  exact List.cons_ne_nil _ _

theorem forkPath_eq {target : SessionHandleTarget} {names : List JsString} {name : JsString}
    (hname : IsEntryName name) (hnames : ∀ n ∈ names, IsEntryName n)
    (hpath : target.path = absPath (names ++ [name])) (id : JsString) :
    forkPath target id = absPath (names.take (names.length - (Relative.ofPath (id ++ js ".jsonl")).climbs) ++
      (Relative.ofPath (id ++ js ".jsonl")).names.reverse) ∧
    ∀ n ∈ names.take (names.length - (Relative.ofPath (id ++ js ".jsonl")).climbs) ++
      (Relative.ofPath (id ++ js ".jsonl")).names.reverse, IsEntryName n := by
  have hne : id ++ js ".jsonl" ≠ [] := List.append_ne_nil_of_right_ne_nil _ (by decide)
  have hlast : (id ++ js ".jsonl").getLast? ≠ some sep := by
    rw [List.getLast?_append_of_ne_nil _ (by decide)]
    decide
  have hdots : js ".." ∉ names.reverse :=
    fun hmem => (hnames _ (List.mem_reverse.mp hmem)).ne_dots rfl
  have hpushed : namesOf (absPath names ++ sep :: (id ++ js ".jsonl")) =
      names.take (names.length - (Relative.ofPath (id ++ js ".jsonl")).climbs) ++
        (Relative.ofPath (id ++ js ".jsonl")).names.reverse := by
    have hfold := Relative.foldl_pushSegment hdots (segments (id ++ js ".jsonl")) ⟨0, []⟩
      List.not_mem_nil
    rw [List.nil_append, List.drop_zero] at hfold
    rw [namesOf_append, namesOf_absPath hnames, hfold, List.reverse_append, List.reverse_drop,
      List.reverse_reverse, List.length_reverse]
    rfl
  refine ⟨?_, ?_⟩
  · rw [forkPath, hpath, dirname_absPath hname hnames,
      joinPath_absolute (isAbsolute_absPath names) hne hlast, hpushed]
  · rw [← hpushed]
    exact isEntryName_namesOf _

/-- A path of names, the last of them a file. -/
def IsFilePath (path : JsString) : Prop :=
  ∃ names, names ≠ [] ∧ (∀ n ∈ names, IsEntryName n) ∧ path = absPath names

theorem isFilePath_forkPath {target : SessionHandleTarget} (h : IsFilePath target.path)
    (id : JsString) : IsFilePath (forkPath target id) := by
  obtain ⟨names, hne, hnames, hpath⟩ := h
  obtain ⟨init, name, rfl⟩ := (List.eq_nil_or_concat' names).resolve_left hne
  obtain ⟨hinit, hname⟩ := List.forall_mem_append.mp hnames
  obtain ⟨hfork, hforkNames⟩ := forkPath_eq (hname name (List.mem_singleton_self _)) hinit hpath id
  refine ⟨_, List.append_ne_nil_of_right_ne_nil _ ?_, hforkNames, hfork⟩
  exact mt List.reverse_eq_nil_iff.mp (names_ne_nil id)

/-- What is left of the names of a store after a climb out of it has to be named again. -/
theorem climb_iff {store dirs added : List JsString} (hadded : added ≠ []) (k : Nat) :
    (∃ more, more ≠ [] ∧
        (store ++ dirs).take ((store ++ dirs).length - k) ++ added = store ++ more) ↔
      store.drop (store.length - (k - dirs.length)) <+: added ∧
        store.drop (store.length - (k - dirs.length)) ≠ added := by
  rw [List.length_append]
  by_cases hk : k ≤ dirs.length
  · have hlength : store.length + dirs.length - k = store.length + (dirs.length - k) := by omega
    have houtside : store.length - (k - dirs.length) = store.length := by omega
    rw [hlength, houtside, List.take_length_add_append, List.drop_length]
    refine iff_of_true ⟨dirs.take (dirs.length - k) ++ added, ?_, List.append_assoc _ _ _⟩
      ⟨List.nil_prefix, hadded.symm⟩
    exact List.append_ne_nil_of_right_ne_nil _ hadded
  · have hlength : store.length + dirs.length - k = store.length - (k - dirs.length) := by omega
    rw [hlength, List.take_append_of_le_length (Nat.sub_le _ _)]
    generalize store.length - (k - dirs.length) = m
    have hcut : ∀ more, store.take m ++ added = store ++ more ↔ added = store.drop m ++ more := by
      intro more
      have hstore : store ++ more = store.take m ++ (store.drop m ++ more) := by
        rw [← List.append_assoc, List.take_append_drop]
      rw [hstore, List.append_cancel_left_eq]
    constructor
    · rintro ⟨more, hmore, heq⟩
      rw [hcut] at heq
      refine ⟨⟨more, heq.symm⟩, fun hsame => hmore ?_⟩
      rw [← hsame] at heq
      exact List.append_cancel_left (heq.symm.trans (List.append_nil _).symm)
    · rintro ⟨⟨more, heq⟩, hne⟩
      refine ⟨more, ?_, (hcut more).mpr heq.symm⟩
      rintro rfl
      exact hne ((List.append_nil _).symm.trans heq)

/-- **A fork stays below the store exactly when its id does not lead out of it.** -/
theorem isBelow_forkPath_iff {target : SessionHandleTarget} (hstores : e.AbsoluteStores)
    (h : IsFilePath target.path) (hbelow : IsBelow (e.storeDir target.engine) target.path)
    (id : JsString) :
    IsBelow (e.storeDir target.engine) (forkPath target id) ↔ IdStays e target id := by
  have hdir : IsAbsolute (e.storeDir target.engine) := by
    cases target.engine with
    | claude => exact hstores.claude
    | codex => exact hstores.codex
  obtain ⟨names, hne, hnames, hpath⟩ := h
  rw [hpath, isBelow_iff hdir hne hnames] at hbelow
  obtain ⟨more, hmore, rfl⟩ := hbelow
  obtain ⟨dirs, name, rfl⟩ := (List.eq_nil_or_concat' more).resolve_left hmore
  rw [← List.append_assoc] at hpath hnames
  obtain ⟨hdirs, hname⟩ := List.forall_mem_append.mp hnames
  obtain ⟨hfork, hforkNames⟩ := forkPath_eq (hname name (List.mem_singleton_self _)) hdirs hpath id
  have hadded : (Relative.ofPath (id ++ js ".jsonl")).names.reverse ≠ [] :=
    mt List.reverse_eq_nil_iff.mp (names_ne_nil id)
  have hlevels : levelsBelow e target = dirs.length := by
    rw [levelsBelow, hpath, namesOf_absPath hnames]
    simp only [List.length_append, List.length_singleton]
    omega
  rw [hfork, isBelow_iff hdir (List.append_ne_nil_of_right_ne_nil _ hadded) hforkNames,
    climb_iff hadded, IdStays, hlevels]

/-! ### Runs -/

/-- What the daemon holds: the targets in the table, and those of the turns. -/
def Held (w : TurnWorld) (target : SessionHandleTarget) : Prop :=
  (∃ handle, w.table.handleToTarget handle = some target) ∨ target ∈ w.turns

theorem target_of_handleFor {new target : SessionHandleTarget} {table : HandleTable} {handle : JsString}
    (h : (e.handleFor new table).handleToTarget handle = some target) :
    target = new ∨ table.handleToTarget handle = some target := by
  have hupdate : ∀ at', Function.update table.handleToTarget at' (some new) handle = some target →
      target = new ∨ table.handleToTarget handle = some target := by
    intro at' h
    rw [Function.update_apply] at h
    split at h
    · exact Or.inl (Option.some.inj h).symm
    · exact Or.inr h
  exact hupdate _ h

theorem target_of_foldl {news : List SessionHandleTarget} {target : SessionHandleTarget}
    {table : HandleTable} {handle : JsString}
    (h : (news.foldl (fun table t => e.handleFor t table) table).handleToTarget handle = some target) :
    target ∈ news ∨ table.handleToTarget handle = some target := by
  induction news generalizing table with
  | nil => exact Or.inr h
  | cons new news ih =>
      rcases ih h with hmem | hold
      · exact Or.inl (List.mem_cons_of_mem _ hmem)
      · rcases target_of_handleFor hold with rfl | hold
        · exact Or.inl List.mem_cons_self
        · exact Or.inr hold

/-- A listed session lies in the store of its engine, and one of Claude's is named after its
file. -/
theorem found_of_mem_targets (hstores : e.AbsoluteStores) {fs : SessionFs e.host} {now : Decimal}
    {req : SessionListRequest} {target : SessionHandleTarget}
    (h : target ∈ e.targets (.list fs.toFileSystem now req)) :
    InStore (e.storeDir target.engine) target.path ∧
      (target.engine = .claude → NamedAfter target.path target.sessionId) := by
  rw [targets] at h
  split at h
  · exact absurd h List.not_mem_nil
  · obtain ⟨c, hc, rfl⟩ := List.mem_map.mp h
    obtain ⟨found, hfound, hparse⟩ := List.mem_map.mp (mem_collect hc)
    obtain ⟨file, hread, hengine, hpath, -, hid⟩ := parseFound_target hparse
    rw [hengine, hpath, (readSessionFile_some hread).1]
    rcases List.mem_append.mp hfound with hclaude | hcodex
    · have hall : FoundInStore e.claudeProjectsDir (e.claudeScan fs.toFileSystem req.filter) := by
        unfold claudeScan
        split
        · exact fun f hf => absurd hf List.not_mem_nil
        · exact foundInStore_claude hstores.claude _ _
      obtain ⟨hf, hstore, hnamed⟩ := hall found hclaude
      rw [hid hf, hf]
      exact ⟨hstore, fun _ => hnamed⟩
    · have hall : ∀ f ∈ e.codexScan fs.toFileSystem req.filter,
          f.engine = .codex ∧ InStore e.codexSessionsDir f.path := by
        unfold codexScan
        split
        · exact fun f hf => absurd hf List.not_mem_nil
        · exact foundInStore_codexDir depthLevels fun hname => InStore.first hstores.codex hname
      obtain ⟨hf, hstore⟩ := hall found hcodex
      rw [hf]
      refine ⟨hstore, ?_⟩
      intro hc
      cases hc

theorem inStore_of_mem_targets (hstores : e.AbsoluteStores) {fs : SessionFs e.host} {now : Decimal}
    {req : SessionListRequest} {target : SessionHandleTarget}
    (h : target ∈ e.targets (.list fs.toFileSystem now req)) :
    InStore (e.storeDir target.engine) target.path := (found_of_mem_targets hstores h).1

theorem isFilePath_of_inStore {dir path : JsString} (h : InStore dir path) : IsFilePath path := by
  obtain ⟨more, hmore, hnames, rfl⟩ := h
  exact ⟨_, List.append_ne_nil_of_right_ne_nil _ hmore, InStore.names hnames, rfl⟩

/-- **What a step adds to what is held**: listed sessions, a target under its new time, or a fork. -/
theorem held_step {w : TurnWorld} {act : TurnAction e} {target : SessionHandleTarget}
    (h : Held (step e w act) target) :
    Held w target ∨
    (∃ fs now req, act = .list fs now req ∧ target ∈ e.targets (.list fs.toFileSystem now req)) ∨
    (∃ old, Held w old ∧ target.engine = old.engine ∧ target.path = old.path) ∨
    ∃ turn id now old, act = .endTurn turn (some id) now ∧ w.turns[turn]? = some old ∧
      old.engine = .claude ∧ id ≠ [] ∧ target.engine = old.engine ∧ target.path = forkPath old id := by
  cases act with
  | list fs now req =>
      rcases h with ⟨handle, h⟩ | h
      · have hcall := call_eq w.table (.list fs.toFileSystem now req)
        have htable : (e.list fs.toFileSystem now req w.table).2 =
            (e.targets (.list fs.toFileSystem now req)).foldl
              (fun table t => e.handleFor t table) w.table := hcall
        change (e.list fs.toFileSystem now req w.table).2.handleToTarget handle = some target at h
        rw [htable] at h
        rcases target_of_foldl h with hmem | hold
        · exact Or.inr (Or.inl ⟨fs, now, req, rfl, hmem⟩)
        · exact Or.inl (Or.inl ⟨handle, hold⟩)
      · exact Or.inl (Or.inr h)
  | readHistory fs handle opts => exact Or.inl h
  | startTurn fs handle =>
      rw [step] at h
      split at h
      · exact Or.inl h
      · rename_i valid hvalid
        rcases h with h | h
        · exact Or.inl (Or.inl h)
        · rcases List.mem_append.mp h with h | h
          · exact Or.inl (Or.inr h)
          · obtain rfl := List.mem_singleton.mp h
            obtain ⟨stored, st, hstored, htarget, -⟩ := validateHandle_some hvalid
            refine Or.inr (Or.inr (Or.inl ⟨stored, Or.inl ⟨handle, hstored⟩, ?_, ?_⟩))
            · rw [htarget]
            · rw [htarget]
  | endTurn turn newSessionId now =>
      rw [step] at h
      split at h
      · exact Or.inl h
      · rename_i old hold
        unfold finishTurn at h
        split at h
        · rename_i id hengine
          split at h
          · rcases h with h | h
            · exact Or.inl (Or.inl h)
            · exact Or.inl (Or.inr (List.mem_of_mem_eraseIdx h))
          · rename_i hid
            rcases h with ⟨handle, h⟩ | h
            · rcases target_of_handleFor h with hnew | hkept
              · refine Or.inr (Or.inr (Or.inr ⟨turn, id, now, old, rfl, hold, hengine, hid, ?_, ?_⟩))
                · rw [hnew]
                · rw [hnew]
              · exact Or.inl (Or.inl ⟨handle, hkept⟩)
            · exact Or.inl (Or.inr (List.mem_of_mem_eraseIdx h))
        · rcases h with h | h
          · exact Or.inl (Or.inl h)
          · exact Or.inl (Or.inr (List.mem_of_mem_eraseIdx h))

/-- A turn has a target that was in the table when it was started. -/
theorem turn_step {w : TurnWorld} {act : TurnAction e} {target : SessionHandleTarget}
    (h : target ∈ (step e w act).turns) :
    target ∈ w.turns ∨ ∃ handle stored, w.table.handleToTarget handle = some stored ∧
      target.engine = stored.engine ∧ target.path = stored.path := by
  cases act with
  | list fs now req => exact Or.inl h
  | readHistory fs handle opts => exact Or.inl h
  | startTurn fs handle =>
      rw [step] at h
      split at h
      · exact Or.inl h
      · rename_i valid hvalid
        rcases List.mem_append.mp h with h | h
        · exact Or.inl h
        · obtain rfl := List.mem_singleton.mp h
          obtain ⟨stored, st, hstored, htarget, -⟩ := validateHandle_some hvalid
          exact Or.inr ⟨handle, stored, hstored, by rw [htarget], by rw [htarget]⟩
  | endTurn turn newSessionId now =>
      rw [step] at h
      split at h
      · exact Or.inl h
      · refine Or.inl (List.mem_of_mem_eraseIdx (i := turn) ?_)
        unfold finishTurn at h
        split at h
        · split at h
          · exact h
          · exact h
        · exact h

variable (e)

/-- Everything that is held is below its store. -/
def HeldStays (w : TurnWorld) : Prop :=
  ∀ target, Held w target → IsBelow (e.storeDir target.engine) target.path

def HeldFiles (w : TurnWorld) : Prop := ∀ target, Held w target → IsFilePath target.path

variable {e}

theorem heldFiles_step (hstores : e.AbsoluteStores) {w : TurnWorld} (act : TurnAction e)
    (h : HeldFiles w) : HeldFiles (step e w act) := by
  intro target htarget
  rcases held_step htarget with hold | ⟨fs, now, req, -, hlisted⟩ | ⟨old, hold, -, hpath⟩ |
    ⟨turn, id, now, old, -, hold, -, -, -, hpath⟩
  · exact h target hold
  · exact isFilePath_of_inStore (inStore_of_mem_targets hstores hlisted)
  · rw [hpath]
    exact h old hold
  · rw [hpath]
    exact isFilePath_forkPath (h old (Or.inr (List.mem_of_getElem? hold))) id

theorem storeDir_absolute (hstores : e.AbsoluteStores) (engine : HistoryEngine) :
    IsAbsolute (e.storeDir engine) := by
  cases engine with
  | claude => exact hstores.claude
  | codex => exact hstores.codex

/-- A step leaves everything below its store exactly when its fork stays there. -/
theorem heldStays_step_iff (hstores : e.AbsoluteStores) {w : TurnWorld} (act : TurnAction e)
    (hfiles : HeldFiles w) (h : HeldStays e w) : HeldStays e (step e w act) ↔ ForkStays e w act := by
  constructor
  · intro hnext
    cases act with
    | endTurn turn newSessionId now =>
        cases newSessionId with
        | none => trivial
        | some id =>
            intro old hold hengine hid
            have hheld : Held w old := Or.inr (List.mem_of_getElem? hold)
            refine (isBelow_forkPath_iff hstores (hfiles old hheld) (h old hheld) id).mp ?_
            let fork : SessionHandleTarget :=
              { old with sessionId := id, path := forkPath old id, mtime := now }
            refine hnext fork (Or.inl ⟨(e.registerFork old id now w.table).1, ?_⟩)
            have hstep : (step e w (.endTurn turn (some id) now)).table =
                (e.registerFork old id now w.table).2 := by
              rw [step, hold]
              dsimp only
              unfold finishTurn
              rw [hengine]
              exact congrArg TurnWorld.table (if_neg hid)
            rw [hstep]
            exact Function.update_self _ _ _
    | list fs now req => trivial
    | readHistory fs handle opts => trivial
    | startTurn fs handle => trivial
  · intro hfork target htarget
    rcases held_step htarget with hold | ⟨fs, now, req, -, hlisted⟩ | ⟨old, hold, hengine, hpath⟩ |
      ⟨turn, id, now, old, rfl, hold, hclaude, hid, hengine, hpath⟩
    · exact h target hold
    · exact (inStore_of_mem_targets hstores hlisted).isBelow (storeDir_absolute hstores _)
    · rw [hengine, hpath]
      exact h old hold
    · have hheld : Held w old := Or.inr (List.mem_of_getElem? hold)
      rw [hengine, hpath]
      exact (isBelow_forkPath_iff hstores (hfiles old hheld) (h old hheld) id).mpr
        (hfork old hold hclaude hid)

/-- What is true of the table all the time is true of the turns. -/
theorem heldStays_of_pathsStay {acts : List (TurnAction e)}
    (h : ∀ before after, acts = before ++ after → PathsStay e (run e before)) :
    ∀ before after, acts = before ++ after → HeldStays e (run e before) := by
  have hturns : ∀ before after, acts = before ++ after →
      ∀ target ∈ (run e before).turns, IsBelow (e.storeDir target.engine) target.path := by
    intro before
    induction before using List.reverseRecOn with
    | nil => exact fun _ _ target htarget => absurd htarget List.not_mem_nil
    | append_singleton before act ih =>
        intro after hsplit target htarget
        have hbefore : acts = before ++ (act :: after) := by
          rw [hsplit, List.append_assoc]
          rfl
        rw [run, Machine.run_append] at htarget
        rcases turn_step htarget with hold | ⟨handle, stored, hstored, hengine, hpath⟩
        · exact ih _ hbefore target hold
        · rw [hengine, hpath]
          exact h before _ hbefore handle stored hstored
  intro before after hsplit target htarget
  rcases htarget with ⟨handle, htable⟩ | hturn
  · exact h before after hsplit handle target htable
  · exact hturns before after hsplit target hturn

/-- **Paths stay in their stores exactly as long as no fork leads out of them.** -/
theorem forks_stay_iff (e : Enumerator) (hstores : e.AbsoluteStores) (acts : List (TurnAction e)) :
    (∀ before after, acts = before ++ after → PathsStay e (run e before)) ↔
      Machine.Along (step e) (ForkStays e) start acts := by
  have hnothing : ∀ target, ¬ Held start target := by
    rintro target (⟨handle, h⟩ | h)
    · exact nomatch h
    · exact absurd h List.not_mem_nil
  have halways := @Machine.always_iff _ _ (step e) (ForkStays e) HeldFiles (HeldStays e)
    (fun w act hfiles => heldFiles_step hstores act hfiles)
    (fun w act hfiles hstays => heldStays_step_iff hstores act hfiles hstays) start acts
    (fun target h => absurd h (hnothing target)) (fun target h => absurd h (hnothing target))
  rw [← halways]
  constructor
  · exact heldStays_of_pathsStay
  · intro h before after hsplit handle target htarget
    exact h before after hsplit target (Or.inl ⟨handle, htarget⟩)

end TurnWorld

/-! ### A run -/

/-- The store with one session in it. -/
def sessionPath : JsString := js "/c/p/" ++ (copiedId ++ js ".jsonl")

def forkStore : SessionFs copiedHost where
  toFileSystem := copiedStore
  statSync path := if path = sessionPath then some ⟨true, copiedNow, copiedFile.bytes.length⟩ else none
  stat_path path h := by
    split at h
    · rename_i hpath
      rw [hpath]
      decide +kernel
    · exact absurd h Bool.false_ne_true
  entryName dir entry h := by
    have hname : ∀ n ∈ [js "p", js "q", copiedId ++ js ".jsonl"], IsEntryName n := by
      intro n hn
      have hall : ∀ n ∈ [js "p", js "q", copiedId ++ js ".jsonl"],
          n ≠ [] ∧ sep ∉ n ∧ n ≠ js "." ∧ n ≠ js ".." := by decide +kernel
      obtain ⟨hne, hsep, hdot, hdots⟩ := hall n hn
      exact ⟨hne, hsep, hdot, hdots⟩
    refine hname _ ?_
    change entry ∈ (if _ then _ else _) at h
    split at h
    · rcases List.mem_cons.mp h with rfl | h
      · decide
      · rw [List.mem_singleton.mp h]
        decide
    · split at h
      · rw [List.mem_singleton.mp h]
        decide
      · exact absurd h List.not_mem_nil

/-- List the sessions, and answer one of them. -/
def answerRun : List (TurnAction copiedEnumerator) :=
  [.list forkStore copiedNow {}, .startTurn forkStore (js "h_0")]

/-- And be told of a fork under the id. -/
def forkRun (id : JsString) : List (TurnAction copiedEnumerator) :=
  answerRun ++ [.endTurn 0 (some id) copiedNow]

theorem answerRun_turns :
    (Machine.run (TurnWorld.step copiedEnumerator) TurnWorld.start answerRun).turns =
      [⟨.claude, copiedId, js "/w", sessionPath, copiedNow⟩] := by
  decide +kernel

/-- An id without a separator is a file next to the session. -/
theorem fork_beside_session :
    TurnWorld.PathsStay copiedEnumerator
      (TurnWorld.run copiedEnumerator (forkRun (js "b"))) := by
  refine (TurnWorld.forks_stay_iff copiedEnumerator ⟨rfl, rfl⟩ (forkRun (js "b"))).mpr
    (Machine.along_append.mpr ⟨⟨trivial, trivial, trivial⟩, ?_, trivial⟩) _ []
    (List.append_nil _).symm
  intro target htarget _ _
  rw [answerRun_turns] at htarget
  obtain rfl := Option.some.inj htarget
  unfold TurnWorld.IdStays
  decide +kernel

/-- One with `..` may be anywhere. -/
theorem fork_leaves_store : ¬ ∀ before after, forkRun (js "../../etc/x") = before ++ after →
    TurnWorld.PathsStay copiedEnumerator (TurnWorld.run copiedEnumerator before) := by
  intro h
  have htable : ((TurnWorld.run copiedEnumerator (forkRun (js "../../etc/x"))).table.handleToTarget
      (js "h_2")) = some ⟨.claude, js "../../etc/x", js "/w", js "/etc/x.jsonl", copiedNow⟩ := by
    decide +kernel
  have hbelow := h _ [] (List.append_nil _).symm _ _ htable
  revert hbelow
  unfold IsBelow
  decide +kernel

end HuginAgent
