/-
Sessions out of scope do not show in a listing.

A session file is in scope when the directory that it records leads into an allow-listed root.
The scan reads every file before it can tell, and in the end it makes something only of those in
scope: two stores that have the same of them are listed alike.  But for one thing: the files of
subagents count against a budget before they are read, and where it runs out the listing ends.
-/
import HuginAgent.Listing.Handles

namespace HuginAgent

/-! ### The files of the stores -/

/-- A session file of Claude: whether it counts against the budget, and what it is found as. -/
structure ClaudeFile where
  counted : Bool
  found : Option FoundFile

section

variable {host : HistoryHost} (fs : FileSystem host)

/-- The files below the directory of a session, in order. -/
def subagentFiles : (levels : Nat) → JsString → List ClaudeFile
  | 0, _ => []
  | levels + 1, dir =>
      (fs.safeReadDir dir).flatMap fun entry =>
        let path := joinPath dir entry.name
        match entry.kind with
        | .directory => subagentFiles levels path
        | .file =>
            match beforeSuffix (js ".jsonl") entry.name with
            | none => []
            | some _ =>
                [⟨true, (subagentFileId entry.name).map fun id => ⟨.claude, path, id, true⟩⟩]
        | .other => []

def claudeEntryFiles (projectDir : JsString) (entry : DirEntry) : List ClaudeFile :=
  let path := joinPath projectDir entry.name
  match entry.kind with
  | .file =>
      match claudeFileId entry.name with
      | none => []
      | some id => [⟨false, some ⟨.claude, path, id, false⟩⟩]
  | .directory =>
      if isUuidText entry.name then subagentFiles fs depthLevels (joinPath path (js "subagents"))
      else []
  | .other => []

def claudeFiles (claudeProjectsDir : JsString) : List ClaudeFile :=
  (fs.safeReadDir claudeProjectsDir).flatMap fun project =>
    if project.kind = .directory then
      let projectDir := joinPath claudeProjectsDir project.name
      (fs.safeReadDir projectDir).flatMap (claudeEntryFiles fs projectDir)
    else []

end

/-- A file is scanned, as far as the budget goes. -/
def ClaudeScan.scan (maxFiles : Nat) (st : ClaudeScan) (f : ClaudeFile) : ClaudeScan :=
  if f.counted then
    if st.capReached then st
    else if maxFiles ≤ st.files then { st with capReached := true }
    else { st with files := st.files + 1, out := st.out ++ f.found.toList }
  else { st with out := st.out ++ f.found.toList }

section

variable {host : HistoryHost} {fs : FileSystem host}

theorem subagentFiles_counted (levels : Nat) (dir : JsString) :
    ∀ f ∈ subagentFiles fs levels dir, f.counted = true ∧
      ∀ found ∈ f.found, found.engine = .claude ∧ found.isSubagent = true := by
  induction levels generalizing dir with
  | zero => exact fun f hf => absurd hf List.not_mem_nil
  | succ levels ih =>
      intro f hf
      obtain ⟨entry, -, hentry⟩ := List.mem_flatMap.mp hf
      dsimp only at hentry
      split at hentry
      · exact ih _ f hentry
      · split at hentry
        · exact absurd hentry List.not_mem_nil
        · obtain rfl := List.mem_singleton.mp hentry
          refine ⟨rfl, ?_⟩
          intro found hfound
          obtain ⟨id, -, rfl⟩ := Option.map_eq_some_iff.mp hfound
          exact ⟨rfl, rfl⟩
      · exact absurd hentry List.not_mem_nil

/-- A file is found as what it counts as. -/
theorem claudeFiles_counted (dir : JsString) :
    ∀ f ∈ claudeFiles fs dir, ∀ found ∈ f.found,
      found.engine = .claude ∧ found.isSubagent = f.counted := by
  intro f hf found hfound
  obtain ⟨project, -, hproject⟩ := List.mem_flatMap.mp hf
  split at hproject
  · obtain ⟨entry, -, hentry⟩ := List.mem_flatMap.mp hproject
    unfold claudeEntryFiles at hentry
    dsimp only at hentry
    split at hentry
    · split at hentry
      · exact absurd hentry List.not_mem_nil
      · obtain rfl := List.mem_singleton.mp hentry
        obtain rfl := Option.some.inj hfound
        exact ⟨rfl, rfl⟩
    · split at hentry
      · obtain ⟨hcounted, hall⟩ := subagentFiles_counted _ _ f hentry
        rw [hcounted]
        exact hall found hfound
      · exact absurd hentry List.not_mem_nil
    · exact absurd hentry List.not_mem_nil
  · exact absurd hproject List.not_mem_nil

theorem foldl_capReached (maxFiles : Nat) {st : ClaudeScan} (hcap : st.capReached = true)
    {files : List ClaudeFile} (h : ∀ f ∈ files, f.counted = true) :
    files.foldl (ClaudeScan.scan maxFiles) st = st := by
  induction files with
  | nil => rfl
  | cons f rest ih =>
      obtain ⟨hf, hrest⟩ := List.forall_mem_cons.mp h
      rw [List.foldl_cons, ClaudeScan.scan, if_pos hf, if_pos hcap]
      exact ih hrest

/-- The descent scans the files that there are, one after the other. -/
theorem scanClaudeSubagentDir_eq (maxFiles levels : Nat) (dir : JsString) (st : ClaudeScan) :
    scanClaudeSubagentDir fs maxFiles levels dir st =
      (subagentFiles fs levels dir).foldl (ClaudeScan.scan maxFiles) st := by
  induction levels generalizing dir st with
  | zero => rfl
  | succ levels ih =>
      by_cases hcap : st.capReached = true
      · rw [foldl_capReached maxFiles hcap fun f hf => (subagentFiles_counted _ _ f hf).1,
          scanClaudeSubagentDir, if_pos hcap]
      · rw [scanClaudeSubagentDir, if_neg hcap, subagentFiles, List.foldl_flatMap]
        refine List.foldl_ext _ _ _ fun st entry hentry => ?_
        dsimp only
        by_cases hcap : st.capReached = true
        · rw [if_pos hcap]
          refine (foldl_capReached maxFiles hcap fun f hf => ?_).symm
          have hmem : f ∈ subagentFiles fs (levels + 1) dir := List.mem_flatMap.mpr ⟨entry, hentry, hf⟩
          exact (subagentFiles_counted (levels + 1) dir f hmem).1
        · rw [if_neg hcap]
          cases entry.kind with
          | directory => exact ih _ st
          | other => rfl
          | file =>
              dsimp only
              unfold scanSubagentFile
              cases beforeSuffix (js ".jsonl") entry.name with
              | none => rfl
              | some stem =>
                  simp only [List.foldl_cons, List.foldl_nil, ClaudeScan.scan, if_true, if_neg hcap]
                  split
                  · rfl
                  · cases subagentFileId entry.name with
                    | none => simp only [Option.map_none, Option.toList_none, List.append_nil]
                    | some id => rfl

/-- Only a listing of subagents looks at what counts. -/
def scansFile (includeSubagents : Bool) (f : ClaudeFile) : Bool := includeSubagents || !f.counted

theorem scanClaudeEntry_eq (maxFiles : Nat) (includeSubagents : Bool) (projectDir : JsString)
    (st : ClaudeScan) (entry : DirEntry) :
    scanClaudeEntry fs maxFiles includeSubagents projectDir st entry =
      ((claudeEntryFiles fs projectDir entry).filter (scansFile includeSubagents)).foldl
        (ClaudeScan.scan maxFiles) st := by
  unfold scanClaudeEntry claudeEntryFiles
  cases entry.kind with
  | other => rfl
  | file =>
      dsimp only
      cases claudeFileId entry.name with
      | none => rfl
      | some id =>
          simp only [List.filter_cons, scansFile, Bool.not_false, Bool.or_true, if_true,
            List.filter_nil, List.foldl_cons, List.foldl_nil, ClaudeScan.scan, Bool.false_eq_true,
            if_false]
          rfl
  | directory =>
      dsimp only
      by_cases hname : isUuidText entry.name = true
      · rw [hname, if_pos rfl, Bool.and_true]
        by_cases hinclude : includeSubagents = true
        · rw [if_pos hinclude, scanClaudeSubagentDir_eq, List.filter_eq_self.mpr]
          intro f _
          rw [scansFile, hinclude, Bool.true_or]
        · rw [if_neg hinclude, List.filter_eq_nil_iff.mpr]
          · rfl
          · intro f hf
            rw [scansFile, (subagentFiles_counted _ _ f hf).1, Bool.not_true, Bool.or_false]
            exact hinclude
      · rw [if_neg hname, if_neg (by rw [Bool.and_eq_true]; exact fun hc => hname hc.2)]
        rfl

/-- The scan goes over the files that there are. -/
theorem scanClaude_eq (maxFiles : Nat) (dir : JsString) (includeSubagents : Bool) :
    scanClaude fs maxFiles dir includeSubagents =
      ((claudeFiles fs dir).filter (scansFile includeSubagents)).foldl (ClaudeScan.scan maxFiles)
        ⟨[], 0, false⟩ := by
  rw [scanClaude, claudeFiles, List.filter_flatMap, List.foldl_flatMap]
  refine List.foldl_ext _ _ _ fun st project _ => ?_
  split
  · rw [List.filter_flatMap, List.foldl_flatMap]
    exact List.foldl_ext _ _ _ fun st entry _ => scanClaudeEntry_eq _ _ _ st entry
  · rfl

/-- Within the budget everything is found. -/
theorem foldl_scan {maxFiles n : Nat} {files : List ClaudeFile} (out : List FoundFile)
    (h : n + (files.filter ClaudeFile.counted).length ≤ maxFiles) :
    files.foldl (ClaudeScan.scan maxFiles) ⟨out, n, false⟩ =
      ⟨out ++ files.flatMap fun f => f.found.toList,
        n + (files.filter ClaudeFile.counted).length, false⟩ := by
  induction files generalizing out n with
  | nil => rw [List.flatMap_nil, List.append_nil]; rfl
  | cons f rest ih =>
      rw [List.foldl_cons, ClaudeScan.scan, List.flatMap_cons, ← List.append_assoc]
      by_cases hf : f.counted = true
      · rw [List.filter_cons_of_pos hf, List.length_cons] at h ⊢
        have hbudget : ¬ maxFiles ≤ n := by omega
        rw [if_pos hf, if_neg Bool.false_ne_true, if_neg hbudget]
        have hrest := ih (n := n + 1) (out ++ f.found.toList) (by omega)
        rw [Nat.add_right_comm, Nat.add_assoc] at hrest
        exact hrest
      · rw [List.filter_cons_of_neg hf] at h ⊢
        rw [if_neg hf]
        exact ih (out ++ f.found.toList) h

end

/-! ### What is read of a file -/

/-- The directory that a session file records. -/
def recordedCwd (host : HistoryHost) (engine : HistoryEngine) (content : JsString) :
    Option JsString :=
  let head := parseHead host (jsonlLines content)
  match engine with
  | .claude => headField head "cwd"
  | .codex =>
      (objectField head.head? "payload").bind fun payload =>
        if stringField head.head? "type" = some (js "session_meta") then
          filledField (some payload) "cwd"
        else none

/-- A session file in scope, with all that is read of it. -/
structure ScopedFile where
  found : FoundFile
  content : JsString
  mtimeMs : Decimal
  scope : ScopedCwd
deriving DecidableEq

section

variable {host : HistoryHost} (fs : FileSystem host)

/-- The file, if the directory that it records leads into an allow-listed root. -/
def scopedFile (allowed : List JsString) (found : FoundFile) : Option ScopedFile :=
  (readSessionFile fs found.path).bind fun file =>
    ((recordedCwd host found.engine file.content).bind fun cwd => scopeCwd fs cwd allowed).map
      fun scope => ⟨found, file.content, file.mtimeMs, scope⟩

end

section

variable {host : HistoryHost} {fs fs' : FileSystem host} {allowed : List JsString}
  {found : FoundFile} {now : Decimal}

theorem readSessionFile_path {path : JsString} {file : ReadSessionFile}
    (h : readSessionFile fs path = some file) : file.path = path := by
  unfold readSessionFile at h
  split at h
  · exact nomatch h
  · obtain ⟨-, h⟩ := Option.ite_none_left_eq_some.mp h
    exact (congrArg ReadSessionFile.path (Option.some.inj h)).symm

theorem scopedFile_found {s : ScopedFile} (h : scopedFile fs allowed found = some s) :
    s.found = found := by
  obtain ⟨file, -, hfile⟩ := Option.bind_eq_some_iff.mp h
  obtain ⟨scope, -, rfl⟩ := Option.map_eq_some_iff.mp hfile
  rfl

/-- Out of scope nothing is made of a file. -/
theorem parseFound_unscoped (h : scopedFile fs allowed found = none) :
    parseFound fs now allowed found = .ok none := by
  unfold parseFound
  cases hread : readSessionFile fs found.path with
  | none => rfl
  | some file =>
      have hscope : (recordedCwd host found.engine file.content).bind
          (fun cwd => scopeCwd fs cwd allowed) = none := by
        unfold scopedFile at h
        rw [hread, Option.bind_some] at h
        exact Option.map_eq_none_iff.mp h
      dsimp only
      cases hengine : found.engine with
      | claude =>
          rw [hengine] at hscope
          dsimp only
          unfold parseClaudeFile
          dsimp only
          rw [show (headField (parseHead host (jsonlLines file.content)) "cwd").bind
            (fun cwd => scopeCwd fs cwd allowed) = none from hscope]
      | codex =>
          rw [hengine] at hscope
          dsimp only
          unfold parseCodexFile
          unfold recordedCwd at hscope
          dsimp only at hscope ⊢
          cases hpayload : objectField (parseHead host (jsonlLines file.content)).head? "payload" with
          | none => rfl
          | some payload =>
              rw [hpayload, Option.bind_some] at hscope
              dsimp only
              split
              · rename_i htype
                rw [if_pos htype] at hscope
                rw [hscope]
              · rfl

/-- Of the file system only where the recorded directory leads is looked at. -/
theorem parseClaudeFile_congr (file : ReadSessionFile) (id : JsString) (isSubagent : Bool)
    (h : (recordedCwd host .claude file.content).bind (fun cwd => scopeCwd fs cwd allowed) =
      (recordedCwd host .claude file.content).bind fun cwd => scopeCwd fs' cwd allowed) :
    parseClaudeFile fs now allowed file id isSubagent =
      parseClaudeFile fs' now allowed file id isSubagent := by
  unfold recordedCwd at h
  dsimp only at h
  unfold parseClaudeFile
  dsimp only
  rw [h]

theorem parseCodexFile_congr (file : ReadSessionFile) (id : JsString)
    (h : (recordedCwd host .codex file.content).bind (fun cwd => scopeCwd fs cwd allowed) =
      (recordedCwd host .codex file.content).bind fun cwd => scopeCwd fs' cwd allowed) :
    parseCodexFile fs now allowed file id = parseCodexFile fs' now allowed file id := by
  unfold recordedCwd at h
  dsimp only at h
  unfold parseCodexFile
  dsimp only
  cases hpayload : objectField (parseHead host (jsonlLines file.content)).head? "payload" with
  | none => rfl
  | some payload =>
      rw [hpayload, Option.bind_some] at h
      dsimp only
      split
      · rename_i htype
        rw [if_pos htype] at h
        rw [h]
      · rfl

/-- In scope the file system tells no more than what was read. -/
theorem parseFound_congr {s : ScopedFile} (h : scopedFile fs allowed found = some s)
    (h' : scopedFile fs' allowed found = some s) :
    parseFound fs now allowed found = parseFound fs' now allowed found := by
  obtain ⟨file, hread, hfile⟩ := Option.bind_eq_some_iff.mp h
  obtain ⟨scope, hscope, rfl⟩ := Option.map_eq_some_iff.mp hfile
  obtain ⟨file', hread', hfile'⟩ := Option.bind_eq_some_iff.mp h'
  obtain ⟨scope', hscope', hs'⟩ := Option.map_eq_some_iff.mp hfile'
  obtain ⟨-, hcontent, hmtime, rfl⟩ := ScopedFile.mk.inj hs'
  have hsame : file' = file := by
    obtain ⟨path, content, mtimeMs⟩ := file
    obtain ⟨path', content', mtimeMs'⟩ := file'
    have hpath := readSessionFile_path hread
    have hpath' := readSessionFile_path hread'
    simp only at hpath hpath' hcontent hmtime
    rw [hpath, hpath', hcontent, hmtime]
  subst hsame
  unfold parseFound
  rw [hread, hread']
  dsimp only
  have hsame := hscope.trans hscope'.symm
  cases hengine : found.engine with
  | claude =>
      rw [hengine] at hsame
      exact parseClaudeFile_congr file' found.sessionId found.isSubagent hsame
  | codex =>
      rw [hengine] at hsame
      exact parseCodexFile_congr file' found.sessionId hsame

end

/-! ### The scan of what is in scope -/

/-- Every session file of the stores, in the order of their directories. -/
def Enumerator.storeFiles (e : Enumerator) (fs : FileSystem e.host) : List FoundFile :=
  ((claudeFiles fs e.claudeProjectsDir).flatMap fun f => f.found.toList) ++
    scanCodex fs e.codexSessionsDir

/-- Those in scope. -/
def Enumerator.scopedFiles (e : Enumerator) (fs : FileSystem e.host) : List ScopedFile :=
  (e.storeFiles fs).filterMap (scopedFile fs (realAllowlist fs e.allowlist))

/-- A filter names the engines, and whether subagents are wanted. -/
def SessionListFilter.scans (filter : SessionListFilter) (found : FoundFile) : Bool :=
  filter.engine.all (fun engine => engine = found.engine) &&
    (filter.includeSubagents || !found.isSubagent)

/-- The stores hold the same session files in scope. -/
structure Enumerator.SameScope (e : Enumerator) (fs fs' : FileSystem e.host) : Prop where
  roots : realAllowlist fs e.allowlist = realAllowlist fs' e.allowlist
  files : e.scopedFiles fs = e.scopedFiles fs'

/-- No more files of subagents than a scan looks at, where it looks at them. -/
def Enumerator.WithinBudget (e : Enumerator) (fs : FileSystem e.host)
    (filter : SessionListFilter) : Prop :=
  filter.engine = some .codex ∨ filter.includeSubagents = false ∨
    ((claudeFiles fs e.claudeProjectsDir).filter ClaudeFile.counted).length ≤ e.subagentFileLimit

namespace Enumerator

section

variable {e : Enumerator} {fs fs' : FileSystem e.host} {now : Decimal}
  {filter : SessionListFilter}

theorem codexFiles_found (dir : JsString) (levels : Nat) :
    ∀ found ∈ scanCodexDir fs levels dir, found.engine = .codex ∧ found.isSubagent = false := by
  induction levels generalizing dir with
  | zero => exact fun found h => absurd h List.not_mem_nil
  | succ levels ih =>
      intro found h
      obtain ⟨entry, -, hentry⟩ := List.mem_flatMap.mp h
      dsimp only at hentry
      split at hentry
      · exact ih _ found hentry
      · split at hentry
        · exact absurd hentry List.not_mem_nil
        · obtain rfl := List.mem_singleton.mp hentry
          exact ⟨rfl, rfl⟩
      · exact absurd hentry List.not_mem_nil

/-- A filter on the files is one on what they are found as. -/
theorem filter_found {p : ClaudeFile → Bool} {q : FoundFile → Bool} {files : List ClaudeFile}
    (h : ∀ f ∈ files, ∀ found ∈ f.found, q found = p f) :
    (files.filter p).flatMap (fun f => f.found.toList) =
      (files.flatMap fun f => f.found.toList).filter q := by
  induction files with
  | nil => rfl
  | cons f rest ih =>
      obtain ⟨hf, hrest⟩ := List.forall_mem_cons.mp h
      rw [List.flatMap_cons, List.filter_append, ← ih hrest]
      by_cases hp : p f = true
      · have hall : f.found.toList.filter q = f.found.toList := List.filter_eq_self.mpr
          fun found hfound => (hf found (Option.mem_toList.mp hfound)).trans hp
        rw [List.filter_cons_of_pos hp, List.flatMap_cons, hall]
      · have hnone : f.found.toList.filter q = [] := by
          refine List.filter_eq_nil_iff.mpr fun found hfound => ?_
          rw [hf found (Option.mem_toList.mp hfound)]
          exact hp
        rw [List.filter_cons_of_neg hp, hnone]
        rfl

theorem scans_claude {found : FoundFile} (hengine : found.engine = .claude) :
    filter.scans found =
      (decide (filter.engine ≠ some .codex) && (filter.includeSubagents || !found.isSubagent)) := by
  rw [SessionListFilter.scans, hengine]
  cases hfilter : filter.engine with
  | none => rfl
  | some engine => cases engine <;> rfl

theorem scans_codex {found : FoundFile} (h : found.engine = .codex ∧ found.isSubagent = false) :
    filter.scans found = decide (filter.engine ≠ some .claude) := by
  rw [SessionListFilter.scans, h.1, h.2, Bool.not_false, Bool.or_true, Bool.and_true]
  cases hfilter : filter.engine with
  | none => rfl
  | some engine => cases engine <;> rfl

theorem claudeScan_eq (h : e.WithinBudget fs filter) :
    (e.claudeScan fs filter).out =
        ((claudeFiles fs e.claudeProjectsDir).flatMap fun f => f.found.toList).filter filter.scans ∧
      (e.claudeScan fs filter).capReached = false := by
  have hfound := @claudeFiles_counted e.host fs e.claudeProjectsDir
  have hscans : ∀ f ∈ claudeFiles fs e.claudeProjectsDir, ∀ found ∈ f.found,
      filter.scans found = (decide (filter.engine ≠ some .codex) && scansFile filter.includeSubagents f) := by
    intro f hf found hmem
    obtain ⟨hengine, hcounted⟩ := hfound f hf found hmem
    rw [scans_claude hengine, hcounted]
    rfl
  rw [← filter_found hscans]
  unfold claudeScan
  by_cases hcodex : filter.engine = some .codex
  · rw [if_pos hcodex]
    refine ⟨?_, rfl⟩
    rw [List.filter_eq_nil_iff.mpr]
    · rfl
    · intro f _
      rw [Bool.and_eq_true, decide_eq_true_eq]
      exact fun hc => hc.1 hcodex
  · rw [if_neg hcodex, scanClaude_eq]
    have hbudget : 0 + (((claudeFiles fs e.claudeProjectsDir).filter
        (scansFile filter.includeSubagents)).filter ClaudeFile.counted).length ≤
          e.subagentFileLimit := by
      rw [Nat.zero_add]
      rcases h with hc | hprimary | hcount
      · exact absurd hc hcodex
      · rw [List.filter_filter, List.filter_eq_nil_iff.mpr]
        · exact Nat.zero_le _
        · intro f _
          rw [scansFile, hprimary, Bool.false_or, Bool.and_not_self]
          exact Bool.false_ne_true
      · exact Nat.le_trans (List.filter_sublist.filter _).length_le hcount
    rw [foldl_scan [] hbudget]
    refine ⟨?_, rfl⟩
    rw [List.nil_append]
    refine congrArg (fun files : List ClaudeFile => files.flatMap fun f => f.found.toList) ?_
    refine List.filter_congr fun f _ => ?_
    rw [decide_eq_true hcodex, Bool.true_and]

/-- Within the budget a scan comes to the files of the stores that the filter names. -/
theorem scanned_eq (h : e.WithinBudget fs filter) :
    (e.claudeScan fs filter).out ++ e.codexScan fs filter =
      (e.storeFiles fs).filter filter.scans := by
  rw [storeFiles, List.filter_append, ← (claudeScan_eq h).1]
  refine congrArg _ ?_
  have hscans : ∀ found ∈ scanCodex fs e.codexSessionsDir,
      filter.scans found = decide (filter.engine ≠ some .claude) :=
    fun found hmem => scans_codex (codexFiles_found _ _ found hmem)
  unfold codexScan
  split
  · rename_i hclaude
    refine (List.filter_eq_nil_iff.mpr fun found hmem => ?_).symm
    rw [hscans found hmem, decide_eq_true_eq]
    exact not_not_intro hclaude
  · rename_i hclaude
    refine (List.filter_eq_self.mpr fun found hmem => ?_).symm
    rw [hscans found hmem, decide_eq_true hclaude]

/-- Out of scope a file leaves no trace. -/
theorem collect_scoped (files : List FoundFile) (allowed : List JsString) :
    collect (files.map (parseFound fs now allowed)) =
      collect ((files.filterMap (scopedFile fs allowed)).map
        fun s => parseFound fs now allowed s.found) := by
  induction files with
  | nil => rfl
  | cons found rest ih =>
      rw [List.map_cons]
      cases hscoped : scopedFile fs allowed found with
      | none =>
          rw [parseFound_unscoped hscoped, List.filterMap_cons_none hscoped, ← ih]
          rfl
      | some s =>
          rw [List.filterMap_cons_some hscoped, List.map_cons, scopedFile_found hscoped]
          cases parseFound fs now allowed found with
          | error err => rfl
          | ok c => rw [collect, collect, ih]

theorem filterMap_scans (files : List FoundFile) (allowed : List JsString) :
    (files.filter filter.scans).filterMap (scopedFile fs allowed) =
      (files.filterMap (scopedFile fs allowed)).filter fun s => filter.scans s.found := by
  induction files with
  | nil => rfl
  | cons found rest ih =>
      cases hscoped : scopedFile fs allowed found with
      | none =>
          rw [List.filterMap_cons_none hscoped, ← ih]
          by_cases hscans : filter.scans found = true
          · rw [List.filter_cons_of_pos hscans, List.filterMap_cons_none hscoped]
          · rw [List.filter_cons_of_neg hscans]
      | some s =>
          have hfound := scopedFile_found hscoped
          rw [List.filterMap_cons_some hscoped]
          by_cases hscans : filter.scans found = true
          · rw [List.filter_cons_of_pos hscans, List.filterMap_cons_some hscoped,
              List.filter_cons_of_pos (by rw [hfound]; exact hscans), ih]
          · rw [List.filter_cons_of_neg hscans, List.filter_cons_of_neg (by rw [hfound]; exact hscans),
              ih]

/-- **The candidates are made of what is in scope.** -/
theorem candidates_scoped (h : e.WithinBudget fs filter) :
    e.candidates fs now filter =
      collect (((e.scopedFiles fs).filter fun s => filter.scans s.found).map
        fun s => parseFound fs now (realAllowlist fs e.allowlist) s.found) := by
  rw [candidates, parsed, scanned_eq h, collect_scoped, filterMap_scans]
  rfl

theorem scopedFile_of_mem {s : ScopedFile} (h : s ∈ e.scopedFiles fs) :
    scopedFile fs (realAllowlist fs e.allowlist) s.found = some s := by
  obtain ⟨found, -, hscoped⟩ := List.mem_filterMap.mp h
  rw [scopedFile_found hscoped]
  exact hscoped

theorem candidates_congr (hsame : e.SameScope fs fs') (h : e.WithinBudget fs filter)
    (h' : e.WithinBudget fs' filter) : e.candidates fs now filter = e.candidates fs' now filter := by
  rw [candidates_scoped h, candidates_scoped h', hsame.files]
  refine congrArg collect (List.map_congr_left fun s hs => ?_)
  have hmem := List.mem_of_mem_filter hs
  have hscoped' := scopedFile_of_mem hmem
  rw [← hsame.files] at hmem
  have hscoped := scopedFile_of_mem hmem
  rw [← hsame.roots] at hscoped' ⊢
  exact parseFound_congr hscoped hscoped'

/-- **Two stores with the same sessions in scope are listed alike.** -/
theorem list_congr (hsame : e.SameScope fs fs') {req : SessionListRequest}
    (h : e.WithinBudget fs req.filter) (h' : e.WithinBudget fs' req.filter) (table : HandleTable) :
    e.list fs now req table = e.list fs' now req table := by
  rw [list, list, hsame.roots, candidates_congr hsame h h', (claudeScan_eq h).2,
    (claudeScan_eq h').2]

/-! ### Handles -/

/-- The target is a session file in scope. -/
def IsScoped (e : Enumerator) (fs : FileSystem e.host) (target : SessionHandleTarget) : Prop :=
  ∃ s, scopedFile fs (realAllowlist fs e.allowlist) s.found = some s ∧
    target.engine = s.found.engine ∧ target.path = s.found.path ∧ target.cwd = s.scope.abs

theorem sessionCandidate_cwd {host : HistoryHost} {engine : HistoryEngine} {file : ReadSessionFile}
    {sessionId : JsString} {scope : ScopedCwd} {gitBranch cliVersion : Option JsString}
    {timestamp : JsValue} {title : Option JsString} {isSubagent : Bool} {msgCount : Nat}
    {c : SessionCandidate}
    (h : @sessionCandidate host now engine file sessionId scope gitBranch cliVersion timestamp title
      isSubagent msgCount = .ok (some c)) : c.target.cwd = scope.abs := by
  unfold sessionCandidate at h
  split at h
  · exact nomatch h
  · obtain rfl := Option.some.inj (Except.ok.inj h)
    rfl

/-- A candidate runs where its file says. -/
theorem parseFound_cwd {allowed : List JsString} {found : FoundFile} {c : SessionCandidate}
    {s : ScopedFile} (hscoped : scopedFile fs allowed found = some s)
    (h : parseFound fs now allowed found = .ok (some c)) : c.target.cwd = s.scope.abs := by
  obtain ⟨file, hread, hfile⟩ := Option.bind_eq_some_iff.mp hscoped
  obtain ⟨scope, hscope, rfl⟩ := Option.map_eq_some_iff.mp hfile
  unfold parseFound at h
  rw [hread] at h
  dsimp only at h
  unfold recordedCwd at hscope
  cases hengine : found.engine with
  | claude =>
      rw [hengine] at h hscope
      dsimp only at h hscope
      unfold parseClaudeFile at h
      dsimp only at h
      rw [hscope] at h
      exact sessionCandidate_cwd h
  | codex =>
      rw [hengine] at h hscope
      dsimp only at h hscope
      unfold parseCodexFile at h
      dsimp only at h
      cases hpayload : objectField (parseHead e.host (jsonlLines file.content)).head? "payload" with
      | none =>
          rw [hpayload] at h
          exact nomatch h
      | some payload =>
          rw [hpayload, Option.bind_some] at hscope
          rw [hpayload] at h
          dsimp only at h
          split at h
          · rename_i htype
            rw [if_pos htype] at hscope
            rw [hscope] at h
            exact sessionCandidate_cwd h
          · exact nomatch h

/-- A list draws handles for what is in scope only, within the budget or not. -/
theorem isScoped_of_targets {req : SessionListRequest} {target : SessionHandleTarget}
    (h : target ∈ e.targets (.list fs now req)) : e.IsScoped fs target := by
  rw [targets] at h
  split at h
  · exact absurd h List.not_mem_nil
  · obtain ⟨c, hc, rfl⟩ := List.mem_map.mp h
    obtain ⟨found, -, hparse⟩ := List.mem_map.mp (mem_collect hc)
    obtain ⟨file, hread, hengine, hpath, -⟩ := parseFound_target hparse
    cases hscoped : scopedFile fs (realAllowlist fs e.allowlist) found with
    | none =>
        rw [parseFound_unscoped hscoped] at hparse
        cases hparse
    | some s =>
        have hfound := scopedFile_found hscoped
        refine ⟨s, ?_, ?_, ?_, parseFound_cwd hscoped hparse⟩
        · rw [hfound]
          exact hscoped
        · rw [hfound]
          exact hengine
        · rw [hfound, hpath]
          exact readSessionFile_path hread

/-- A handle stands for something that it was given for. -/
theorem resolves_given {table : HandleTable} {given : List SessionHandleTarget}
    (h : ∀ handle target, resolveHandle handle table = some target → target ∈ given)
    (more : List SessionHandleTarget) {handle : JsString} {target : SessionHandleTarget}
    (hresolves : resolveHandle handle (more.foldl (fun table t => e.handleFor t table) table) =
      some target) : target ∈ given ++ more := by
  induction more generalizing table given with
  | nil => exact (List.append_nil given).symm ▸ h handle target hresolves
  | cons t rest ih =>
      rw [← List.singleton_append, ← List.append_assoc]
      refine ih ?_ hresolves
      intro handle' target' hresolves'
      rw [show resolveHandle handle' (e.handleFor t table) = Function.update table.handleToTarget
        (e.handleOf (e.handleFor t table) t) (some t) handle' from rfl,
        Function.update_apply] at hresolves'
      split at hresolves'
      · obtain rfl := Option.some.inj hresolves'
        exact List.mem_append_right _ (List.mem_singleton_self _)
      · exact List.mem_append_left _ (h handle' target' hresolves')

theorem resolves_tableAfter (calls : List e.Call) : ∀ handle target,
    resolveHandle handle (e.tableAfter calls) = some target → target ∈ e.given calls := by
  induction calls using List.reverseRecOn with
  | nil => exact fun handle target h => nomatch h
  | append_singleton calls c ih =>
      intro handle target h
      rw [tableAfter_concat] at h
      rw [given, List.flatMap_append, List.flatMap_singleton]
      exact resolves_given ih (e.targets c) h

/-- No handle of a list is for a file out of scope. -/
theorem resolves_scoped {calls : List e.Call} {handle : JsString} {target : SessionHandleTarget}
    (h : resolveHandle handle (e.tableAfter calls) = some target) :
    Call.registerForked target ∈ calls ∨
      ∃ fs now req, Call.list fs now req ∈ calls ∧ e.IsScoped fs target := by
  obtain ⟨c, hc, htarget⟩ := List.mem_flatMap.mp (resolves_tableAfter calls handle target h)
  cases c with
  | list fs now req => exact Or.inr ⟨fs, now, req, hc, isScoped_of_targets htarget⟩
  | registerForked t =>
      obtain rfl := List.mem_singleton.mp htarget
      exact Or.inl hc

end

/-- **Out of scope nothing shows**: two stores with the same sessions in scope are listed alike, as
long as a scan does not run out of its budget of subagents; handles are drawn for sessions in scope
only; and without a root there is nothing. -/
theorem list_scoped (e : Enumerator) :
    (∀ (fs fs' : FileSystem e.host) now req table, e.SameScope fs fs' →
      e.WithinBudget fs req.filter → e.WithinBudget fs' req.filter →
        e.list fs now req table = e.list fs' now req table) ∧
      (∀ (calls : List e.Call) handle target,
        resolveHandle handle (e.tableAfter calls) = some target →
          Call.registerForked target ∈ calls ∨
            ∃ fs now req, Call.list fs now req ∈ calls ∧ e.IsScoped fs target) ∧
      ∀ (fs : FileSystem e.host) now req table, realAllowlist fs e.allowlist = [] →
        e.list fs now req table = (.ok ⟨[], none, false⟩, table) := by
  refine ⟨?_, fun _ _ _ => resolves_scoped, ?_⟩
  · intro fs fs' now req table hsame h h'
    exact list_congr hsame h h' table
  · intro fs now req table hempty
    rw [list, if_pos hempty]

end Enumerator

/-! ### A subagent out of scope -/

def subagentsDir : JsString := js "/c/p/" ++ (copiedId ++ js "/subagents")

def elsewhereFile : StoredFile copiedHost where
  bytes := utf8Encode (js "\x7b\"cwd\":\"/v\"\x7d")
  mtimeMs := copiedNow
  double := copiedFile.double

/-- A session with the log of a subagent in scope, and of some others. -/
def subagentStore (names : List JsString) : FileSystem copiedHost where
  safeReadDir dir :=
    if dir = js "/c" then [⟨js "p", .directory⟩]
    else if dir = js "/c/p" then [⟨copiedId, .directory⟩]
    else if dir = subagentsDir then names.map fun name => ⟨name, .file⟩
    else []
  file path :=
    if path = subagentsDir ++ js "/b.jsonl" then some copiedFile
    else if path = subagentsDir ++ js "/a.jsonl" then some elsewhereFile
    else none
  file_path path h := by
    split at h
    · rename_i hpath
      rw [hpath]
      decide +kernel
    · split at h
      · rename_i hpath
        rw [hpath]
        decide +kernel
      · exact absurd h Bool.false_ne_true
  realpath path := if path = js "/w" then some (js "/w") else none

/-- A subagent out of scope comes first in the second store. -/
theorem subagentStore_sameScope (budget : Option JsNumber) :
    ({ copiedEnumerator with maxSubagentFiles := budget } : Enumerator).SameScope
      (subagentStore [js "b.jsonl"]) (subagentStore [js "a.jsonl", js "b.jsonl"]) := by
  refine ⟨rfl, ?_⟩
  show copiedEnumerator.scopedFiles (subagentStore [js "b.jsonl"]) =
    copiedEnumerator.scopedFiles (subagentStore [js "a.jsonl", js "b.jsonl"])
  decide +kernel

theorem subagents_listed_alike :
    copiedEnumerator.list (subagentStore [js "b.jsonl"]) copiedNow
        { filter := { includeSubagents := true } } Enumerator.emptyTable =
      copiedEnumerator.list (subagentStore [js "a.jsonl", js "b.jsonl"]) copiedNow
        { filter := { includeSubagents := true } } Enumerator.emptyTable := by
  refine copiedEnumerator.list_scoped.1 _ _ _ _ _ (subagentStore_sameScope none) ?_ ?_
  · refine Or.inr (Or.inr ?_)
    decide +kernel
  · refine Or.inr (Or.inr ?_)
    decide +kernel

/-- With room for one subagent, the one in scope is missed. -/
theorem subagent_missed :
    ¬ ∀ (e : Enumerator) (fs fs' : FileSystem e.host) now req table, e.SameScope fs fs' →
      e.list fs now req table = e.list fs' now req table := by
  intro hall
  let e : Enumerator := { copiedEnumerator with maxSubagentFiles := some (.ofInt 1) }
  let count := fun names => ((e.list (subagentStore names) copiedNow
    { filter := { includeSubagents := true } } Enumerator.emptyTable).1.toOption).map
      fun result => (result.sessions.length, result.truncated)
  have hsame : count [js "b.jsonl"] = count [js "a.jsonl", js "b.jsonl"] := by
    have hlists := hall e _ _ copiedNow { filter := { includeSubagents := true } }
      Enumerator.emptyTable (subagentStore_sameScope (some (.ofInt 1)))
    exact congrArg (fun listed => (listed.1.toOption).map
      fun result : SessionListResult => (result.sessions.length, result.truncated)) hlists
  have hfound : count [js "b.jsonl"] = some (1, false) := by decide +kernel
  have hmissed : count [js "a.jsonl", js "b.jsonl"] = some (0, true) := by decide +kernel
  rw [hfound, hmissed] at hsame
  exact absurd hsame (by decide)

end HuginAgent
