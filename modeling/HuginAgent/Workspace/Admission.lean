/-
Which workspaces are admitted, `src/workspace/worktree.ts`.

Containment is decided by string prefixes.  The strings are paths that `realpath` or `resolve` has
given, so each is told by its names, and a prefix that ends with a separator is a prefix of names
(`within_of_startsWith`).  What is admitted is read off the checks in their order
(`validateWorkspace_eq_ok_iff`).
-/
import HuginAgent.Js.Resolve
import HuginAgent.Protocol.Schema

namespace HuginAgent

/-! ### Errors -/

inductive WorktreeCode
  | rootNotAllowlisted
  | notAGitRepo
  | cwdEscape
  | worktreeFailed
deriving DecidableEq

structure WorktreeError where
  code : WorktreeCode
  message : JsString
deriving DecidableEq

/-! ### The file system -/

/-- What is read of a file system.  A real path is absolute and in normal form. -/
structure WorkspaceFs where
  /-- `process.cwd()`. -/
  workingDir : JsString
  realpath : JsString → Option JsString
  isResolved : ∀ {path real}, realpath path = some real → IsResolved real
  /-- `existsSync`. -/
  exist : JsString → Bool

/-! ### `validateWorkspace` -/

/-- `[A-Za-z0-9_-]`. -/
def isSegmentUnit (u : UInt16) : Bool := isAlnum u || u = unit '_' || u = unit '-'

def safeUnit (u : UInt16) : UInt16 := if isSegmentUnit u then u else unit '_'

def safeSegment (id : JsString) : JsString := if id = [] then js "_" else id.map safeUnit

structure WorkspaceOpts where
  repoRoot : JsString
  cwd : Option JsString
  allowlist : List JsString
  stateDir : JsString
  attemptId : JsString

structure ValidWorkspace where
  root : JsString
  wtDir : JsString
  relCwd : JsString
deriving DecidableEq

/-- `path === dir || path.startsWith(dir + sep)`. -/
def isAtOrUnder (dir path : JsString) : Bool := path = dir || (dir ++ [sep]).isPrefixOf path

/-- The check of `cwd`; an empty one counts as none. -/
def relativeCwd (fs : WorkspaceFs) (root : JsString) : Option JsString → Except WorktreeError JsString
  | none => .ok []
  | some cwd =>
      if cwd = [] then .ok []
      else
        match fs.realpath (resolvePath fs.workingDir [root, cwd]) with
        | none => .error ⟨.cwdEscape, js "cwd does not resolve: " ++ cwd⟩
        | some c =>
            if isAtOrUnder root c then .ok (pathRelative fs.workingDir root c)
            else .error ⟨.cwdEscape, js "cwd escapes repo_root: " ++ cwd⟩

def wtBaseOf (fs : WorkspaceFs) (stateDir : JsString) : JsString :=
  resolvePath fs.workingDir [stateDir, js "worktrees"]

def wtDirOf (fs : WorkspaceFs) (stateDir attemptId : JsString) : JsString :=
  joinPath (wtBaseOf fs stateDir) (safeSegment attemptId)

def validateWorkspace (fs : WorkspaceFs) (opts : WorkspaceOpts) : Except WorktreeError ValidWorkspace :=
  match fs.realpath opts.repoRoot with
  | none => .error ⟨.rootNotAllowlisted, js "repo_root does not exist: " ++ opts.repoRoot⟩
  | some root =>
      let allowed := opts.allowlist.filterMap fs.realpath
      if !allowed.any fun a => isAtOrUnder a root then
        .error ⟨.rootNotAllowlisted, js "repo_root not on the allowlist: " ++ root⟩
      else if !fs.exist (joinPath root (js ".git")) then
        .error ⟨.notAGitRepo, js "repo_root is not a git repository: " ++ root⟩
      else
        match relativeCwd fs root opts.cwd with
        | .error e => .error e
        | .ok relCwd =>
            let wtBase := wtBaseOf fs opts.stateDir
            let wtDir := wtDirOf fs opts.stateDir opts.attemptId
            if (wtBase ++ [sep]).isPrefixOf (resolvePath fs.workingDir [wtDir] ++ [sep]) then
              .ok ⟨root, wtDir, relCwd⟩
            else .error ⟨.worktreeFailed, js "unsafe worktree path for attempt_id"⟩

/-! ### What is admitted -/

/-- The real path of `cwd`, which is taken from the root. -/
def IsRealCwd (fs : WorkspaceFs) (root : JsString) (cwd : Option JsString) (real : JsString) : Prop :=
  match cwd with
  | none => real = root
  | some cwd =>
      if cwd = [] then real = root
      else fs.realpath (resolvePath fs.workingDir [root, cwd]) = some real

structure Admitted (fs : WorkspaceFs) (opts : WorkspaceOpts) (v : ValidWorkspace) : Prop where
  root : fs.realpath opts.repoRoot = some v.root
  allowed : ∃ entry ∈ opts.allowlist, ∃ a, fs.realpath entry = some a ∧ Within a v.root
  cwd : ∃ real, IsRealCwd fs v.root opts.cwd real ∧ Within v.root real ∧
    joinMaybe v.root v.relCwd = real
  noDots : js ".." ∉ segments v.relCwd
  /-- A direct child of `<stateDir>/worktrees`. -/
  wtDir : IsResolved v.wtDir ∧ ∃ name, IsEntryName name ∧
    namesOf v.wtDir = namesOf (resolvePath fs.workingDir [opts.stateDir]) ++ [js "worktrees", name]

/-- Why a workspace is refused. -/
def Refused (fs : WorkspaceFs) (opts : WorkspaceOpts) : WorktreeCode → Prop
  | .rootNotAllowlisted =>
      ∀ root, fs.realpath opts.repoRoot = some root →
        ∀ entry ∈ opts.allowlist, ∀ a, fs.realpath entry = some a → isAtOrUnder a root = false
  | .notAGitRepo =>
      ∃ root, fs.realpath opts.repoRoot = some root ∧ fs.exist (joinPath root (js ".git")) = false
  | .cwdEscape =>
      ∃ root cwd, fs.realpath opts.repoRoot = some root ∧ opts.cwd = some cwd ∧ cwd ≠ [] ∧
        ∀ real, fs.realpath (resolvePath fs.workingDir [root, cwd]) = some real →
          isAtOrUnder root real = false
  | .worktreeFailed => False

/-- What is admitted is contained, and all else is refused with a code that says why. -/
structure SoundAdmission (fs : WorkspaceFs) (opts : WorkspaceOpts) : Prop where
  admits : ∀ v, validateWorkspace fs opts = .ok v → Admitted fs opts v
  refuses : (∀ v, validateWorkspace fs opts ≠ .ok v) →
    ∃ e, validateWorkspace fs opts = .error e ∧ Refused fs opts e.code

/-! ### The segment -/

theorem isSegmentUnit_safeUnit (u : UInt16) : isSegmentUnit (safeUnit u) = true := by
  unfold safeUnit
  split
  · assumption
  · decide

theorem safeSegment_units (id : JsString) : ∀ u ∈ safeSegment id, isSegmentUnit u = true := by
  intro u hu
  unfold safeSegment at hu
  split at hu
  · simp only [js] at hu
    revert u
    decide
  · obtain ⟨v, -, rfl⟩ := List.mem_map.mp hu
    exact isSegmentUnit_safeUnit v

theorem safeSegment_ne_nil (id : JsString) : safeSegment id ≠ [] := by
  unfold safeSegment
  split
  · decide
  · rename_i hne
    intro hnil
    exact hne (List.map_eq_nil_iff.mp hnil)

/-- **A segment is the name of an entry, whatever the id.** -/
theorem isEntryName_safeSegment (id : JsString) : IsEntryName (safeSegment id) := by
  have hunits := safeSegment_units id
  have hnot : ∀ u, isSegmentUnit u = false → u ∉ safeSegment id := by
    intro u hu hmem
    rw [hunits u hmem] at hu
    exact nomatch hu
  refine ⟨safeSegment_ne_nil id, hnot sep (by decide), ?_, ?_⟩
  · intro hdot
    exact hnot (unit '.') (by decide) (hdot ▸ (by decide : unit '.' ∈ js "."))
  · intro hdots
    exact hnot (unit '.') (by decide) (hdots ▸ (by decide : unit '.' ∈ js ".."))

section

variable {fs : WorkspaceFs} {stateDir attemptId : JsString}

theorem wtDirOf_eq : wtDirOf fs stateDir attemptId =
    absPath (namesOf (wtBaseOf fs stateDir) ++ [safeSegment attemptId]) :=
  joinPath_name (isAbsolute_absPath _) (isEntryName_safeSegment attemptId)

theorem namesOf_wtDirOf : namesOf (wtDirOf fs stateDir attemptId) =
    namesOf (wtBaseOf fs stateDir) ++ [safeSegment attemptId] := by
  rw [wtDirOf_eq]
  refine namesOf_absPath ?_
  intro n hn
  rcases List.mem_append.mp hn with hn | hn
  · exact isEntryName_namesOf _ n hn
  · rw [List.mem_singleton.mp hn]
    exact isEntryName_safeSegment attemptId

theorem isResolved_wtDirOf : IsResolved (wtDirOf fs stateDir attemptId) := by
  rw [IsResolved, namesOf_wtDirOf, wtDirOf_eq]

/-- The last check always passes. -/
theorem wtDirOf_contained :
    (wtBaseOf fs stateDir ++ [sep]).isPrefixOf
      (resolvePath fs.workingDir [wtDirOf fs stateDir attemptId] ++ [sep]) = true := by
  have habs : IsAbsolute (wtDirOf fs stateDir attemptId) := by
    rw [wtDirOf_eq]
    exact isAbsolute_absPath _
  have hworktrees : IsEntryName (js "worktrees") := ⟨by decide, by decide, by decide, by decide⟩
  have hbase : namesOf (wtBaseOf fs stateDir) ≠ [] := by
    rw [wtBaseOf, resolvePath_name hworktrees]
    exact List.append_ne_nil_of_right_ne_nil _ (List.cons_ne_nil _ _)
  have hnames : ∀ n ∈ namesOf (wtDirOf fs stateDir attemptId), IsEntryName n := isEntryName_namesOf _
  have hpath : resolvePath fs.workingDir [wtDirOf fs stateDir attemptId] =
      absPath (namesOf (wtDirOf fs stateDir attemptId)) := by
    rw [isResolved_resolvePath [wtDirOf fs stateDir attemptId], resolvePath_absolute habs]
  have hdir : wtBaseOf fs stateDir ++ [sep] = dirText (namesOf (wtBaseOf fs stateDir)) := by
    rw [dirText_eq hbase]
    exact congrArg (· ++ [sep]) (isResolved_resolvePath _)
  rw [List.isPrefixOf_iff_prefix, hpath, hdir]
  refine List.IsPrefix.trans ?_ (List.prefix_append _ _)
  rw [namesOf_wtDirOf, dirText_isPrefix_iff (isEntryName_namesOf _) _ _]
  · exact ⟨[safeSegment attemptId], List.cons_ne_nil _ _, rfl⟩
  · rw [← namesOf_wtDirOf]
    exact hnames
  · exact List.append_ne_nil_of_right_ne_nil _ (List.cons_ne_nil _ _)

end

/-! ### The working directory -/

section

variable {fs : WorkspaceFs} {root : JsString}

theorem within_of_isAtOrUnder {dir path : JsString} (hdir : IsResolved dir)
    (hpath : IsResolved path) (h : isAtOrUnder dir path = true) : Within dir path := by
  rw [isAtOrUnder, Bool.or_eq_true, decide_eq_true_eq, List.isPrefixOf_iff_prefix] at h
  exact within_of_startsWith hdir hpath h

/-- What is admitted as `cwd` lies within the root, and is told by the names after those of it. -/
theorem relativeCwd_names {cwd : Option JsString} {relCwd : JsString} (hroot : IsResolved root)
    (h : relativeCwd fs root cwd = .ok relCwd) :
    ∃ real more, IsRealCwd fs root cwd real ∧ IsResolved real ∧
      namesOf real = namesOf root ++ more ∧ relCwd = join '/' more := by
  cases cwd with
  | none =>
      obtain rfl := Except.ok.inj h
      exact ⟨root, [], rfl, hroot, (List.append_nil _).symm, rfl⟩
  | some cwd =>
      rw [relativeCwd] at h
      by_cases hempty : cwd = []
      · rw [if_pos hempty] at h
        obtain rfl := Except.ok.inj h
        refine ⟨root, [], ?_, hroot, (List.append_nil _).symm, rfl⟩
        rw [IsRealCwd, if_pos hempty]
      · rw [if_neg hempty] at h
        cases hreal : fs.realpath (resolvePath fs.workingDir [root, cwd]) with
        | none =>
            rw [hreal] at h
            exact nomatch h
        | some c =>
            rw [hreal] at h
            dsimp only at h
            by_cases hunder : isAtOrUnder root c = true
            · rw [if_pos hunder] at h
              obtain rfl := Except.ok.inj h
              have hc := fs.isResolved hreal
              obtain ⟨more, hmore⟩ := within_of_isAtOrUnder hroot hc hunder
              refine ⟨c, more, ?_, hc, hmore.symm, pathRelative_within hroot hc hmore.symm⟩
              rw [IsRealCwd, if_neg hempty]
              exact hreal
            · rw [if_neg hunder] at h
              exact nomatch h

/-- The names after those of a path are names of entries. -/
theorem isEntryName_of_append {path : JsString} {names more : List JsString}
    (h : namesOf path = names ++ more) : ∀ n ∈ more, IsEntryName n := by
  intro n hn
  refine isEntryName_namesOf path n ?_
  rw [h]
  exact List.mem_append_right _ hn

/-- They have no `..`, and are joined to the root again. -/
theorem join_admitted {real : JsString} {more : List JsString} (hroot : IsResolved root)
    (hreal : IsResolved real) (h : namesOf real = namesOf root ++ more) :
    joinMaybe root (join '/' more) = real ∧ js ".." ∉ segments (join '/' more) := by
  have hnames := isEntryName_of_append h
  refine ⟨?_, ?_⟩
  · rw [joinMaybe_join hroot hnames, ← h]
    exact hreal.symm
  · by_cases hne : more = []
    · rw [hne]
      decide
    · rw [segments_join hne hnames]
      exact fun hdots => (hnames _ hdots).ne_dots rfl

theorem relativeCwd_error {cwd : Option JsString} {e : WorktreeError}
    (h : relativeCwd fs root cwd = .error e) :
    e.code = .cwdEscape ∧ ∃ c, cwd = some c ∧ c ≠ [] ∧
      ∀ real, fs.realpath (resolvePath fs.workingDir [root, c]) = some real →
        isAtOrUnder root real = false := by
  cases cwd with
  | none => exact nomatch h
  | some cwd =>
      rw [relativeCwd] at h
      by_cases hempty : cwd = []
      · rw [if_pos hempty] at h
        exact nomatch h
      · rw [if_neg hempty] at h
        cases hreal : fs.realpath (resolvePath fs.workingDir [root, cwd]) with
        | none =>
            rw [hreal] at h
            obtain rfl := Except.error.inj h
            refine ⟨rfl, cwd, rfl, hempty, ?_⟩
            intro real hc
            rw [hreal] at hc
            exact nomatch hc
        | some c =>
            rw [hreal] at h
            dsimp only at h
            by_cases hunder : isAtOrUnder root c = true
            · rw [if_pos hunder] at h
              exact nomatch h
            · rw [if_neg hunder] at h
              obtain rfl := Except.error.inj h
              refine ⟨rfl, cwd, rfl, hempty, ?_⟩
              intro real hc
              obtain rfl := Option.some.inj (hreal.symm.trans hc)
              exact Bool.eq_false_iff.mpr hunder

/-! ### The main result -/

variable {opts : WorkspaceOpts}

/-- The checks in their order. -/
theorem validateWorkspace_eq_ok_iff {v : ValidWorkspace} :
    validateWorkspace fs opts = .ok v ↔
      fs.realpath opts.repoRoot = some v.root ∧
        ((opts.allowlist.filterMap fs.realpath).any fun a => isAtOrUnder a v.root) = true ∧
        fs.exist (joinPath v.root (js ".git")) = true ∧
        relativeCwd fs v.root opts.cwd = .ok v.relCwd ∧
        v.wtDir = wtDirOf fs opts.stateDir opts.attemptId := by
  rw [validateWorkspace]
  cases hreal : fs.realpath opts.repoRoot with
  | none => exact iff_of_false (fun h => nomatch h) fun h => nomatch h.1
  | some root =>
      dsimp only
      rw [wtDirOf_contained]
      constructor
      · intro h
        cases hallowed : (opts.allowlist.filterMap fs.realpath).any fun a => isAtOrUnder a root with
        | false =>
            rw [hallowed] at h
            exact nomatch h
        | true =>
            cases hgit : fs.exist (joinPath root (js ".git")) with
            | false =>
                rw [hallowed, hgit] at h
                exact nomatch h
            | true =>
                cases hcwd : relativeCwd fs root opts.cwd with
                | error e =>
                    rw [hallowed, hgit, hcwd] at h
                    exact nomatch h
                | ok relCwd =>
                    simp only [hallowed, hgit, hcwd, Bool.not_true, Bool.false_eq_true, if_false,
                      if_true, Except.ok.injEq] at h
                    rw [← h]
                    dsimp only
                    exact ⟨rfl, hallowed, hgit, hcwd, rfl⟩
      · rintro ⟨hroot, hallowed, hgit, hcwd, hwt⟩
        rw [← Option.some.inj hroot] at hallowed hgit hcwd
        simp only [hallowed, hgit, hcwd, Bool.not_true, Bool.false_eq_true, if_false, if_true]
        rw [Option.some.inj hroot, ← hwt]

theorem validateWorkspace_refused {e : WorktreeError} (h : validateWorkspace fs opts = .error e) :
    Refused fs opts e.code := by
  rw [validateWorkspace] at h
  cases hreal : fs.realpath opts.repoRoot with
  | none =>
      rw [hreal] at h
      obtain rfl := Except.error.inj h
      intro root hroot
      rw [hreal] at hroot
      exact nomatch hroot
  | some root =>
      rw [hreal] at h
      dsimp only at h
      rw [wtDirOf_contained] at h
      cases hallowed : (opts.allowlist.filterMap fs.realpath).any fun a => isAtOrUnder a root with
      | false =>
          rw [hallowed] at h
          obtain rfl := Except.error.inj h
          intro root' hroot entry hentry a ha
          obtain rfl := Option.some.inj (hreal.symm.trans hroot)
          rw [List.any_eq_false] at hallowed
          exact Bool.eq_false_iff.mpr (hallowed a (List.mem_filterMap.mpr ⟨entry, hentry, ha⟩))
      | true =>
          cases hgit : fs.exist (joinPath root (js ".git")) with
          | false =>
              rw [hallowed, hgit] at h
              obtain rfl := Except.error.inj h
              exact ⟨root, hreal, hgit⟩
          | true =>
              rw [hallowed, hgit] at h
              cases hcwd : relativeCwd fs root opts.cwd with
              | ok relCwd =>
                  rw [hcwd] at h
                  exact nomatch h
              | error e' =>
                  rw [hcwd] at h
                  obtain rfl := Except.error.inj h
                  obtain ⟨hcode, c, hc, hne, hout⟩ := relativeCwd_error hcwd
                  rw [hcode]
                  exact ⟨root, c, hreal, hc, hne, hout⟩

theorem admitted_of_ok {v : ValidWorkspace} (h : validateWorkspace fs opts = .ok v) :
    Admitted fs opts v := by
  obtain ⟨hroot, hallowed, -, hcwd, hwt⟩ := validateWorkspace_eq_ok_iff.mp h
  have hresolved := fs.isResolved hroot
  have hworktrees : IsEntryName (js "worktrees") := ⟨by decide, by decide, by decide, by decide⟩
  obtain ⟨real, more, hreal, hrealResolved, hnames, hrel⟩ := relativeCwd_names hresolved hcwd
  obtain ⟨hjoin, hdots⟩ := join_admitted hresolved hrealResolved hnames
  rw [← hrel] at hjoin hdots
  refine ⟨hroot, ?_, ⟨real, hreal, ⟨more, hnames.symm⟩, hjoin⟩, hdots, ?_⟩
  · obtain ⟨a, ha, hunder⟩ := List.any_eq_true.mp hallowed
    obtain ⟨entry, hentry, hentryReal⟩ := List.mem_filterMap.mp ha
    exact ⟨entry, hentry, a, hentryReal,
      within_of_isAtOrUnder (fs.isResolved hentryReal) hresolved hunder⟩
  · rw [hwt]
    refine ⟨isResolved_wtDirOf, safeSegment opts.attemptId, isEntryName_safeSegment _, ?_⟩
    rw [namesOf_wtDirOf, wtBaseOf, resolvePath_name hworktrees, List.append_assoc]
    rfl

/-- **Admission is sound, for every file system and every attempt id.** -/
theorem validateWorkspace_sound (fs : WorkspaceFs) (opts : WorkspaceOpts) :
    SoundAdmission fs opts := by
  refine ⟨fun v h => admitted_of_ok h, ?_⟩
  intro hnone
  cases hresult : validateWorkspace fs opts with
  | ok v => exact absurd hresult (hnone v)
  | error e => exact ⟨e, rfl, validateWorkspace_refused hresult⟩

end

end HuginAgent
