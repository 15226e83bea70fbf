/-
What a run of the daemon gives handles to.

The parts of a key are joined by NUL.  No file was ever found under a path with one, but the id of
a fork is what an engine has written, and the path of the fork is made of it.  Still no two
sessions of a run have one key (`triple_of_key`).  Where the id of one fork ends, that of another
may go on, and then with what the first one's path begins with; but then these are names, which
the second one's path has all of the first one's before, and so more NULs than its key has left.
-/
import HuginAgent.Js.Resolve
import HuginAgent.Listing.Forks

namespace HuginAgent

open Enumerator

/-! ### Counting NULs -/

theorem count_join (names : List JsString) :
    (join '/' names).count nul = (names.map (List.count nul)).sum := by
  induction names with
  | nil => rfl
  | cons first rest ih =>
      cases rest with
      | nil => simp [join]
      | cons second rest =>
          have hjoin : join '/' (first :: second :: rest) =
              first ++ sep :: join '/' (second :: rest) := by
            rw [join, List.intercalate_cons_cons, List.append_assoc]
            rfl
          have hsep : sep ≠ nul := by decide
          rw [hjoin, List.count_append, List.count_cons_of_ne hsep, ih, List.map_cons, List.sum_cons,
            List.map_cons, List.map_cons, List.sum_cons, List.sum_cons]

theorem count_absPath (names : List JsString) :
    (absPath names).count nul = (names.map (List.count nul)).sum := by
  have hsep : sep ≠ nul := by decide
  rw [absPath, List.count_cons_of_ne hsep, count_join]

theorem foldl_push_names {names : List JsString} (h : ∀ n ∈ names, IsEntryName n) (r : Relative) :
    (names.foldl Relative.push r).names = names.reverse ++ r.names := by
  induction names generalizing r with
  | nil => rfl
  | cons first rest ih =>
      obtain ⟨hfirst, hrest⟩ := List.forall_mem_cons.mp h
      rw [List.foldl_cons, Relative.push_name hfirst, ih hrest, List.reverse_cons, List.append_assoc]
      rfl

namespace TurnWorld

/-! ### The paths of forks -/

/-- What the id of a fork adds to the names of a directory, from last to first. -/
def namesOfId (sessionId : JsString) : List JsString :=
  (Relative.ofPath (sessionId ++ js ".jsonl")).names

/-- The path goes on from names without a NUL by what the id adds. -/
def NamedById (path sessionId : JsString) : Prop :=
  ∃ base, (∀ n ∈ base, nul ∉ n) ∧ (∀ n ∈ base ++ (namesOfId sessionId).reverse, IsEntryName n) ∧
    path = absPath (base ++ (namesOfId sessionId).reverse)

/-- A path with all its NULs in what the id adds. -/
theorem count_namedById {path sessionId : JsString} (h : NamedById path sessionId) :
    path.count nul = ((namesOfId sessionId).map (List.count nul)).sum := by
  obtain ⟨base, hbase, -, rfl⟩ := h
  have hzero : (base.map (List.count nul)).sum = 0 := by
    refine List.sum_eq_zero ?_
    intro n hn
    obtain ⟨name, hname, rfl⟩ := List.mem_map.mp hn
    exact List.count_eq_zero.mpr (hbase name hname)
  rw [count_absPath, List.map_append, List.sum_append, hzero, List.map_reverse, List.sum_reverse,
    Nat.zero_add]

/-- What the id adds: the name of a file, after what the segments before it come to. -/
theorem namesOfId_eq {sessionId last : JsString} {init : List JsString} (hlast : sep ∉ last)
    (h : segments (sessionId ++ js ".jsonl") = init ++ [last ++ js ".jsonl"]) :
    namesOfId sessionId = (last ++ js ".jsonl") :: (init.foldl Relative.push ⟨0, []⟩).names := by
  have hname : IsEntryName (last ++ js ".jsonl") :=
    isEntryName_suffix hlast (by decide) (by decide) (by decide)
  rw [namesOfId, Relative.ofPath, h, List.foldl_append, List.foldl_cons, List.foldl_nil,
    Relative.push_name hname]

/-- **An id does not go on with the beginning of a path where the path's own id ends.** -/
theorem namedById_apart {path path' sessionId more : JsString} (h : NamedById path sessionId)
    (h' : NamedById path' (sessionId ++ nul :: more)) : path ≠ more ++ nul :: path' := by
  intro heq
  have hcount := count_namedById h
  have hcount' := count_namedById h'
  obtain ⟨base, -, hnames, hpath⟩ := h
  obtain ⟨base', -, -, hpath'⟩ := h'
  -- what the longer id goes on with is the beginning of an absolute path
  obtain ⟨rest, rfl⟩ : ∃ rest, more = sep :: rest := by
    cases more with
    | nil =>
        rw [hpath] at heq
        exact absurd (List.cons.inj heq).1 (by decide)
    | cons u rest =>
        rw [hpath] at heq
        obtain ⟨hu, -⟩ := List.cons.inj heq
        exact ⟨rest, by rw [← hu]⟩
  obtain ⟨initId, lastId, hlastId, hid⟩ := segments_suffix sessionId
  obtain ⟨initRest, lastRest, hlastRest, hrest⟩ := segments_suffix rest
  have hnulSep : sep ∉ [nul] := by decide
  have hjsonl : sep ∉ js ".jsonl" := by decide
  -- so its segments are names of that path
  have hrestNames : ∀ n ∈ initRest, IsEntryName n := by
    have hne : base ++ (namesOfId sessionId).reverse ≠ [] :=
      List.append_ne_nil_of_right_ne_nil _ (mt List.reverse_eq_nil_iff.mp (names_ne_nil sessionId))
    have hsplit : path = [] ++ sep :: ((rest ++ [nul]) ++ sep :: join '/' (base' ++
        (namesOfId (sessionId ++ nul :: sep :: rest)).reverse)) := by
      rw [heq, hpath', absPath]
      simp
    have hsegments := congrArg segments hsplit
    rw [hpath, segments_absPath hnames hne, segments_append, segments_append,
      segments_of_notMem List.not_mem_nil, hrest [nul] hnulSep] at hsegments
    have hsame : base ++ (namesOfId sessionId).reverse = (initRest ++ [lastRest ++ [nul]]) ++
        segments (join '/' (base' ++ (namesOfId (sessionId ++ nul :: sep :: rest)).reverse)) :=
      (List.cons.inj hsegments).2
    intro n hn
    refine hnames n ?_
    rw [hsame]
    exact List.mem_append_left _ (List.mem_append_left _ hn)
  have hnulName : IsEntryName (lastId ++ [nul]) :=
    isEntryName_suffix hlastId hnulSep (by decide) (by decide)
  have hlonger : segments ((sessionId ++ nul :: sep :: rest) ++ js ".jsonl") =
      (initId ++ [lastId ++ [nul]] ++ initRest) ++ [lastRest ++ js ".jsonl"] := by
    have hcut : (sessionId ++ nul :: sep :: rest) ++ js ".jsonl" =
        (sessionId ++ [nul]) ++ sep :: (rest ++ js ".jsonl") := by simp
    rw [hcut, segments_append, hid [nul] hnulSep, hrest (js ".jsonl") hjsonl, List.append_assoc,
      List.append_assoc, List.append_assoc]
  -- the names of the shorter id come again, but for the last, which has one NUL more
  have hnamesId := namesOfId_eq hlastId (hid (js ".jsonl") hjsonl)
  have hnamesLonger := namesOfId_eq hlastRest hlonger
  rw [List.foldl_append, List.foldl_append, List.foldl_cons, List.foldl_nil,
    Relative.push_name hnulName, foldl_push_names hrestNames] at hnamesLonger
  have htotal : path.count nul = (sep :: rest).count nul + (path'.count nul + 1) := by
    rw [heq, List.count_append, List.count_cons_self]
  rw [hnamesId] at hcount
  rw [hnamesLonger] at hcount'
  simp only [List.map_cons, List.sum_cons, List.map_append, List.sum_append, List.count_append,
    List.count_singleton_self] at hcount hcount'
  omega

/-! ### The keys of a run -/

/-- What is given a handle: a file that was found, or a fork of a session of Claude's. -/
def Told (target : SessionHandleTarget) : Prop :=
  (nul ∉ target.path ∧ (target.engine = .claude → nul ∉ target.sessionId)) ∨
    (target.engine = .claude ∧ NamedById target.path target.sessionId)

/-- Two texts that are joined alike are the same, or one goes on where the other ends. -/
theorem joined_cases {a b a' b' : JsString} (h : a ++ nul :: b = a' ++ nul :: b') :
    (a = a' ∧ b = b') ∨ (∃ more, a' = a ++ nul :: more ∧ b = more ++ nul :: b') ∨
      ∃ more, a = a' ++ nul :: more ∧ b' = more ++ nul :: b := by
  have hcut : ∀ {a b a' b' more : JsString}, a' = a ++ more → nul :: b = more ++ nul :: b' →
      (a = a' ∧ b = b') ∨ ∃ more, a' = a ++ nul :: more ∧ b = more ++ nul :: b' := by
    intro a b a' b' more ha hb
    cases more with
    | nil => exact Or.inl ⟨(ha.trans (List.append_nil a)).symm, (List.cons.inj hb).2⟩
    | cons u more =>
        obtain ⟨hu, hrest⟩ := List.cons.inj hb
        exact Or.inr ⟨more, by rw [ha, ← hu], hrest⟩
  rcases List.append_eq_append_iff.mp h with ⟨more, ha, hb⟩ | ⟨more, ha, hb⟩
  · exact (hcut ha hb).imp_right Or.inl
  · rcases hcut ha hb with ⟨ha, hb⟩ | hmore
    · exact Or.inl ⟨ha.symm, hb.symm⟩
    · exact Or.inr (Or.inr hmore)

/-- A path that was found goes with no id that goes on. -/
theorem found_apart {path path' sessionId sessionId' more : JsString} (hpath : nul ∉ path)
    (hid : nul ∉ sessionId) :
    ¬ (sessionId' = sessionId ++ nul :: more ∧ path = more ++ nul :: path') ∧
      ¬ (sessionId = sessionId' ++ nul :: more ∧ path' = more ++ nul :: path) := by
  constructor
  · rintro ⟨-, rfl⟩
    exact hpath (List.mem_append_right _ List.mem_cons_self)
  · rintro ⟨rfl, -⟩
    exact hid (List.mem_append_right _ List.mem_cons_self)

/-- **Keys tell apart what a run gives handles to.** -/
theorem triple_of_key {a b : SessionHandleTarget} (ha : Told a) (hb : Told b)
    (h : handleKey a = handleKey b) : a.triple = b.triple := by
  have htext : ∀ engine : HistoryEngine, nul ∉ engine.text := by
    intro engine
    cases engine <;> decide
  obtain ⟨htext, hjoined⟩ := append_sep_inj (htext a.engine) (htext b.engine) h
  have hengine : a.engine = b.engine := by
    generalize a.engine = x at htext
    generalize b.engine = y at htext
    cases x <;> cases y <;> first | rfl | exact absurd htext (by decide)
  have hpair : a.sessionId = b.sessionId ∧ a.path = b.path := by
    rcases ha with ⟨hpathA, hidA⟩ | ⟨hclaudeA, hnamedA⟩
    · rcases hb with ⟨hpathB, -⟩ | ⟨hclaudeB, -⟩
      · exact (append_sep_inj_last hpathA hpathB hjoined)
      · have hidA := hidA (hengine.trans hclaudeB)
        rcases joined_cases hjoined with hsame | ⟨more, hmore⟩ | ⟨more, hmore⟩
        · exact hsame
        · exact absurd hmore (found_apart hpathA hidA).1
        · exact absurd hmore (found_apart hpathA hidA).2
    · rcases hb with ⟨hpathB, hidB⟩ | ⟨-, hnamedB⟩
      · have hidB := hidB (hengine.symm.trans hclaudeA)
        rcases joined_cases hjoined with hsame | ⟨more, hmore⟩ | ⟨more, hmore⟩
        · exact hsame
        · exact absurd hmore (found_apart hpathB hidB).2
        · exact absurd hmore (found_apart hpathB hidB).1
      · rcases joined_cases hjoined with hsame | ⟨more, hid, hpath⟩ | ⟨more, hid, hpath⟩
        · exact hsame
        · exact absurd hpath (namedById_apart hnamedA (hid ▸ hnamedB))
        · exact absurd hpath (namedById_apart hnamedB (hid ▸ hnamedA))
  rw [SessionHandleTarget.triple, SessionHandleTarget.triple, hengine, hpair.1, hpair.2]

variable {e : Enumerator}

/-- A file that a listing has found. -/
theorem told_of_listed (hstores : e.AbsoluteStores) {fs : SessionFs e.host} {now : Decimal}
    {req : SessionListRequest} {target : SessionHandleTarget}
    (h : target ∈ e.targets (.list fs.toFileSystem now req)) : Told target := by
  have hpath : nul ∉ target.path := path_of_mem_targets h
  refine Or.inl ⟨hpath, ?_⟩
  intro hclaude hid
  obtain ⟨parent, name, hparent, hname, hjoined, hstem⟩ :=
    (found_of_mem_targets hstores h).2 hclaude
  rw [hjoined, joinPath_name hparent hname] at hpath
  refine List.count_eq_zero.mpr hpath |>.not_gt ?_
  rw [count_absPath, List.map_append, List.sum_append, List.map_singleton, List.sum_singleton]
  have hpositive : 0 < name.count nul := List.count_pos_iff.mpr (hstem.subset hid)
  omega

/-- The target that a fork is registered under. -/
def forkOf (target : SessionHandleTarget) (newSessionId : JsString) (now : Decimal) :
    SessionHandleTarget :=
  { target with sessionId := newSessionId, path := forkPath target newSessionId, mtime := now }

theorem told_forkOf {source : SessionHandleTarget} (hclaude : source.engine = .claude)
    (hfile : IsFilePath source.path) (hpath : nul ∉ source.path) (id : JsString) (now : Decimal) :
    Told (forkOf source id now) := by
  obtain ⟨names, hne, hnames, hsource⟩ := hfile
  obtain ⟨init, name, rfl⟩ := (List.eq_nil_or_concat' names).resolve_left hne
  obtain ⟨hinit, hname⟩ := List.forall_mem_append.mp hnames
  obtain ⟨hfork, hforkNames⟩ :=
    forkPath_eq (hname name (List.mem_singleton_self _)) hinit hsource id
  refine Or.inr ⟨hclaude, _, ?_, hforkNames, hfork⟩
  intro n hn hmem
  have hzero := List.count_eq_zero.mpr hpath
  rw [hsource, count_absPath, List.map_append, List.sum_append] at hzero
  have hle : n.count nul ≤ (init.map (List.count nul)).sum :=
    List.single_le_sum (fun _ _ => Nat.zero_le _) _ (List.mem_map_of_mem (List.mem_of_mem_take hn))
  have hpositive := List.count_pos_iff.mpr hmem
  omega

/-! ### Runs -/

variable (e)

/-- The calls to the enumerator that change its table. -/
def callsOf (w : TurnWorld) : TurnAction e → List e.Call
  | .list fs now req => [.list fs.toFileSystem now req]
  | .endTurn turn (some id) now =>
      match w.turns[turn]? with
      | some target =>
          if target.engine = .claude ∧ id ≠ [] then [.registerForked (forkOf target id now)] else []
      | none => []
  | .readHistory .. | .startTurn .. | .endTurn _ none _ => []

/-- The calls of a run. -/
def calls (acts : List (TurnAction e)) : List e.Call :=
  Machine.track (step e) (fun w act calls => calls ++ callsOf e w act) start [] acts

/-- What holds of a world and the calls that have led to it. -/
structure Traced (w : TurnWorld) (calls : List e.Call) : Prop where
  table : w.table = e.tableAfter calls
  files : HeldFiles w
  /-- A turn is started with a file that is there. -/
  turns : ∀ t ∈ w.turns, nul ∉ t.path
  given : ∀ t ∈ e.given calls, Told t

variable {e}

theorem given_concat (calls : List e.Call) (c : e.Call) :
    e.given (calls ++ [c]) = e.given calls ++ e.targets c := by
  rw [given, List.flatMap_append, List.flatMap_singleton]
  rfl

theorem turns_step {w : TurnWorld} (h : ∀ t ∈ w.turns, nul ∉ t.path) (act : TurnAction e) :
    ∀ t ∈ (step e w act).turns, nul ∉ t.path := by
  cases act with
  | list fs now req => exact h
  | readHistory fs handle opts => exact h
  | startTurn fs handle =>
      rw [step]
      split
      · exact h
      · rename_i target hvalid
        obtain ⟨stored, st, -, rfl, hst, -⟩ := validateHandle_some hvalid
        refine List.forall_mem_append.mpr ⟨h, List.forall_mem_singleton.mpr ?_⟩
        exact fs.stat_path _ (Option.isSome_of_eq_some hst)
  | endTurn turn newSessionId now =>
      have herase : ∀ t ∈ w.turns.eraseIdx turn, nul ∉ t.path :=
        fun t ht => h t (List.mem_of_mem_eraseIdx ht)
      rw [step]
      split
      · exact h
      · unfold finishTurn
        split
        · split
          · exact herase
          · exact herase
        · exact herase

/-- A fork that is registered, or nothing. -/
theorem traced_endTurn {w : TurnWorld} {calls : List e.Call} (h : Traced e w calls) (turn : Nat)
    (newSessionId : Option JsString) (now : Decimal) :
    (step e w (.endTurn turn newSessionId now)).table =
        e.tableAfter (calls ++ callsOf e w (.endTurn turn newSessionId now)) ∧
      ∀ t ∈ e.given (calls ++ callsOf e w (.endTurn turn newSessionId now)), Told t := by
  cases newSessionId with
  | none =>
      rw [callsOf, List.append_nil]
      refine ⟨?_, h.given⟩
      cases hturn : w.turns[turn]? with
      | none =>
          simp only [step, hturn]
          exact h.table
      | some target =>
          simp only [step, hturn, finishTurn]
          cases target.engine with
          | claude => exact h.table
          | codex => exact h.table
  | some id =>
      cases hturn : w.turns[turn]? with
      | none =>
          simp only [callsOf, step, hturn, List.append_nil]
          exact ⟨h.table, h.given⟩
      | some target =>
          have hmem := List.mem_of_getElem? hturn
          simp only [callsOf, step, hturn, finishTurn]
          cases hengine : target.engine with
          | codex =>
              rw [if_neg (fun hc => HistoryEngine.noConfusion hc.1), List.append_nil]
              exact ⟨h.table, h.given⟩
          | claude =>
              dsimp only
              by_cases hid : id = []
              · rw [if_pos hid, if_neg (fun hc => hc.2 hid), List.append_nil]
                exact ⟨h.table, h.given⟩
              · rw [if_neg hid, if_pos ⟨rfl, hid⟩, tableAfter_concat, ← h.table, given_concat]
                refine ⟨rfl, List.forall_mem_append.mpr ⟨h.given, ?_⟩⟩
                refine List.forall_mem_singleton.mpr ?_
                exact told_forkOf hengine (h.files target (Or.inr hmem)) (h.turns target hmem) id now

theorem traced_step (hstores : e.AbsoluteStores) {w : TurnWorld} {calls : List e.Call}
    (h : Traced e w calls) (act : TurnAction e) :
    Traced e (step e w act) (calls ++ callsOf e w act) := by
  have hfiles := heldFiles_step hstores act h.files
  have hturns := turns_step h.turns act
  cases act with
  | list fs now req =>
      refine ⟨?_, hfiles, hturns, ?_⟩
      · rw [callsOf, tableAfter_concat, ← h.table]
        exact call_eq w.table (.list fs.toFileSystem now req)
      · rw [callsOf, given_concat]
        exact List.forall_mem_append.mpr ⟨h.given, fun t ht => told_of_listed hstores ht⟩
  | readHistory fs handle opts =>
      rw [callsOf, List.append_nil]
      exact h
  | startTurn fs handle =>
      rw [callsOf, List.append_nil]
      refine ⟨?_, hfiles, hturns, h.given⟩
      rw [step]
      split
      · exact h.table
      · exact h.table
  | endTurn turn newSessionId now =>
      obtain ⟨htable, hgiven⟩ := traced_endTurn h turn newSessionId now
      exact ⟨htable, hfiles, hturns, hgiven⟩

theorem traced_run (hstores : e.AbsoluteStores) (acts : List (TurnAction e)) :
    Traced e (run e acts) (calls e acts) := by
  have hstart : Traced e start [] := by
    refine ⟨rfl, ?_, fun t ht => absurd ht List.not_mem_nil, fun t ht => absurd ht List.not_mem_nil⟩
    rintro target (⟨handle, h⟩ | h)
    · cases h
    · exact absurd h List.not_mem_nil
  exact Machine.track_invariant_all (step e) (fun w act calls => calls ++ callsOf e w act)
    (I := Traced e) (fun w act calls h => traced_step hstores h act) hstart acts

theorem calls_concat (acts : List (TurnAction e)) (act : TurnAction e) :
    calls e (acts ++ [act]) = calls e acts ++ callsOf e (run e acts) act :=
  Machine.track_append ..

/-- A fork is given the handle that its registration returns. -/
theorem givenOut_forked (hstores : e.AbsoluteStores) {acts : List (TurnAction e)} {turn : Nat}
    {id : JsString} {now : Decimal} {source : SessionHandleTarget}
    (hturn : (run e acts).turns[turn]? = some source) (hclaude : source.engine = .claude)
    (hid : id ≠ []) :
    e.GivenOut (calls e (acts ++ [.endTurn turn (some id) now]))
      (e.registerFork source id now (run e acts).table).1 (forkOf source id now) := by
  have hcalls : callsOf e (run e acts) (.endTurn turn (some id) now) =
      [.registerForked (forkOf source id now)] := by
    simp only [callsOf, hturn]
    rw [if_pos ⟨hclaude, hid⟩]
  rw [calls_concat, hcalls, (traced_run hstores acts).table]
  exact givenOut_registerForked (calls e acts) (forkOf source id now)

/-- **In every run of the daemon handles are bound to what they were given out for, and checked
whenever they are used.** -/
theorem handles_bound (e : Enumerator) (hstores : e.AbsoluteStores) :
    (∀ acts : List (TurnAction e),
      (run e acts).table = e.tableAfter (calls e acts) ∧ e.HandlesBound (calls e acts)) ∧
    (∀ (acts : List (TurnAction e)) (fs : SessionFs e.host) now req result,
      (e.list fs.toFileSystem now req (run e acts).table).1 = .ok result →
        ∀ info ∈ result.sessions, ∃ c : SessionCandidate, info = c.info info.handle ∧
          e.GivenOut (calls e (acts ++ [.list fs now req])) info.handle c.target) ∧
    (∀ (acts : List (TurnAction e)) turn id now source,
      (run e acts).turns[turn]? = some source → source.engine = .claude → id ≠ [] →
        e.GivenOut (calls e (acts ++ [.endTurn turn (some id) now]))
          (e.registerFork source id now (run e acts).table).1 (forkOf source id now)) ∧
    e.CheckedWhenUsed := by
  refine ⟨?_, ?_, ?_, checkedWhenUsed e⟩
  · intro acts
    have h := traced_run hstores acts
    refine ⟨h.table, (handlesBound_iff _).mpr ?_⟩
    exact fun a ha b hb => triple_of_key (h.given a ha) (h.given b hb)
  · intro acts fs now req result hresult
    rw [(traced_run hstores acts).table] at hresult
    rw [calls_concat]
    exact givenOut_of_listed hresult
  · intro acts turn id now source hturn hclaude hid
    exact givenOut_forked hstores hturn hclaude hid

/-- A fork whose id holds a NUL has a handle of its own. -/
theorem handles_bound_nul :
    copiedEnumerator.HandlesBound (calls copiedEnumerator (forkRun (js "a" ++ nul :: js "/b"))) :=
  ((handles_bound copiedEnumerator ⟨rfl, rfl⟩).1 _).2

end TurnWorld

end HuginAgent
