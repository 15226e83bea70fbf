/-
`resolve` and `relative` of `node:path`.

What `resolve` gives is absolute and in normal form, so both are told by the names of the paths:
`resolve` goes on from one path with the next (`namesOf_resolveFrom`), and what is relative to a
directory that it lies in are the names that come after those of the directory
(`pathRelative_within`).
-/
import HuginAgent.Js.Normal

namespace HuginAgent

/-! ### The functions -/

/-- What `resolve` normalizes, of the paths from last to first: those after the last absolute one,
or else after the working directory. -/
def resolveFrom (workingDir : JsString) : (paths : List JsString) → JsString → JsString
  | [], resolvedPath => workingDir ++ sep :: resolvedPath
  | path :: rest, resolvedPath =>
      if path = [] then resolveFrom workingDir rest resolvedPath
      else if path.head? = some sep then path ++ sep :: resolvedPath
      else resolveFrom workingDir rest (path ++ sep :: resolvedPath)

/-- `resolve(...paths)`; a working directory is an absolute path. -/
def resolvePath (workingDir : JsString) (paths : List JsString) : JsString :=
  absPath (namesOf (resolveFrom workingDir paths.reverse []))

def commonLength : List JsString → List JsString → Nat
  | a :: as, b :: bs => if a = b then commonLength as bs + 1 else 0
  | _, _ => 0

/-- `relative(start, target)`. -/
def pathRelative (workingDir start target : JsString) : JsString :=
  if start = target then []
  else
    let startNames := namesOf (resolvePath workingDir [start])
    let targetNames := namesOf (resolvePath workingDir [target])
    let common := commonLength startNames targetNames
    join '/' (List.replicate (startNames.length - common) (js "..") ++ targetNames.drop common)

/-- `join(dir, name)`, an empty name being left out. -/
def joinMaybe (dir name : JsString) : JsString :=
  if name = [] then normalizePath dir else joinPath dir name

/-- The path is the directory or lies below it. -/
def Within (dir path : JsString) : Prop := namesOf dir <+: namesOf path

/-- A path as `realpath` and `resolve` give it. -/
def IsResolved (path : JsString) : Prop := path = absPath (namesOf path)

section

variable {workingDir dir path : JsString} {names more : List JsString}

/-! ### Resolved paths -/

theorem isResolved_absPath (h : ∀ n ∈ names, IsEntryName n) : IsResolved (absPath names) := by
  rw [IsResolved, namesOf_absPath h]

theorem namesOf_resolvePath (paths : List JsString) :
    namesOf (resolvePath workingDir paths) = namesOf (resolveFrom workingDir paths.reverse []) :=
  namesOf_absPath (isEntryName_namesOf _)

theorem isResolved_resolvePath (paths : List JsString) :
    IsResolved (resolvePath workingDir paths) := by
  rw [IsResolved, namesOf_resolvePath]
  rfl

theorem namesOf_sep (path : JsString) : namesOf (path ++ [sep]) = namesOf path := by
  rw [namesOf_append, segments_of_notMem List.not_mem_nil, List.foldl_cons, List.foldl_nil,
    pushSegment_nil, List.reverse_reverse]

/-- What is resolved goes on from the paths before it. -/
theorem namesOf_resolveFrom (paths : List JsString) (resolvedPath : JsString) :
    namesOf (resolveFrom workingDir paths resolvedPath) =
      ((segments resolvedPath).foldl (pushSegment true)
        (namesOf (resolveFrom workingDir paths [])).reverse).reverse := by
  induction paths generalizing resolvedPath with
  | nil => rw [resolveFrom, resolveFrom, namesOf_append, namesOf_sep]
  | cons path rest ih =>
      by_cases hempty : path = []
      · rw [resolveFrom, resolveFrom, if_pos hempty, if_pos hempty, ih]
      by_cases habs : path.head? = some sep
      · rw [resolveFrom, resolveFrom, if_neg hempty, if_neg hempty, if_pos habs, if_pos habs,
          namesOf_append, namesOf_sep]
      · rw [resolveFrom, resolveFrom, if_neg hempty, if_neg hempty, if_neg habs, if_neg habs, ih,
          ih (path ++ [sep]), segments_append, segments_append, segments_of_notMem List.not_mem_nil,
          List.foldl_append, List.foldl_append, List.reverse_reverse]
        rfl

theorem resolvePath_absolute (h : IsAbsolute path) :
    namesOf (resolvePath workingDir [path]) = namesOf path := by
  have hne : path ≠ [] := by
    rintro rfl
    exact nomatch (show ([] : JsString).head? = some sep from h)
  have hhead : path.head? = some sep := h
  rw [namesOf_resolvePath, List.reverse_singleton, resolveFrom, if_neg hne, if_pos hhead, namesOf_sep]

/-- A name is resolved to an entry of the directory. -/
theorem resolvePath_name {name : JsString} (h : IsEntryName name) :
    namesOf (resolvePath workingDir [dir, name]) =
      namesOf (resolvePath workingDir [dir]) ++ [name] := by
  have habs : name.head? ≠ some sep := fun hhead => h.sep (List.mem_of_mem_head? hhead)
  have hreverse : [dir, name].reverse = [name, dir] := rfl
  rw [namesOf_resolvePath, namesOf_resolvePath, hreverse, resolveFrom, if_neg h.ne_nil, if_neg habs,
    namesOf_resolveFrom, segments_append, segments_of_notMem h.sep,
    segments_of_notMem List.not_mem_nil, List.reverse_singleton]
  simp only [List.singleton_append, List.foldl_cons, List.foldl_nil, pushSegment_name h,
    pushSegment_nil, List.reverse_cons, List.reverse_reverse]

/-! ### Prefixes of paths -/

theorem segments_absPath (h : ∀ n ∈ names, IsEntryName n) (hne : names ≠ []) :
    segments (absPath names) = [] :: names := by
  have hfirst : segments (absPath names) = [] :: segments (join '/' names) :=
    splitAll_append List.not_mem_nil _
  rw [hfirst, segments_join hne h]

theorem dirText_isPrefix_iff (hnames : ∀ n ∈ names, IsEntryName n)
    (hmore : ∀ n ∈ more, IsEntryName n) (hne : more ≠ []) :
    dirText names <+: absPath more ↔ ∃ rest, rest ≠ [] ∧ more = names ++ rest := by
  constructor
  · rintro ⟨text, htext⟩
    have hsegments := segments_absPath hmore hne
    rw [← htext, segments_dirText names hnames] at hsegments
    refine ⟨segments text, ?_, (List.cons.inj hsegments).2.symm⟩
    exact List.append_ne_nil_of_right_ne_nil _ (List.cons_ne_nil _ _)
  · rintro ⟨rest, hrest, rfl⟩
    refine ⟨join '/' rest, ?_⟩
    rw [absPath, join_append hrest]
    rfl

/-- **A resolved path that is the directory, or begins with it and a separator, lies within it.** -/
theorem within_of_startsWith (hdir : IsResolved dir) (hpath : IsResolved path)
    (h : path = dir ∨ dir ++ [sep] <+: path) : Within dir path := by
  rcases h with rfl | h
  · exact List.prefix_rfl
  have hnames := isEntryName_namesOf dir
  have hmore := isEntryName_namesOf path
  rw [hdir, hpath] at h
  by_cases hne : namesOf path = []
  · -- the path is the root, and too short
    have hlength := h.length_le
    rw [hne, List.length_append] at hlength
    simp [absPath, join] at hlength
  by_cases hroot : namesOf dir = []
  · rw [Within, hroot]
    exact List.nil_prefix
  · rw [← dirText_eq hroot, dirText_isPrefix_iff hnames hmore hne] at h
    obtain ⟨rest, -, hrest⟩ := h
    exact ⟨rest, hrest.symm⟩

/-! ### `relative` -/

theorem commonLength_append (names more : List JsString) :
    commonLength names (names ++ more) = names.length := by
  induction names with
  | nil => cases more <;> rfl
  | cons name names ih => rw [List.cons_append, commonLength, if_pos rfl, ih, List.length_cons]

/-- **What lies within a directory is relative to it by the names after those of the directory.** -/
theorem pathRelative_within (hdir : IsResolved dir) (hpath : IsResolved path)
    (h : namesOf path = namesOf dir ++ more) : pathRelative workingDir dir path = join '/' more := by
  have habs : ∀ {p}, IsResolved p → IsAbsolute p := by
    intro p hp
    rw [hp]
    exact isAbsolute_absPath _
  by_cases heq : dir = path
  · have hnil : more = [] := by
      rw [heq] at h
      exact List.append_right_eq_self.mp h.symm
    rw [pathRelative, if_pos heq, hnil]
    rfl
  · rw [pathRelative, if_neg heq]
    simp only [resolvePath_absolute (habs hdir), resolvePath_absolute (habs hpath), h,
      commonLength_append, Nat.sub_self, List.replicate_zero, List.nil_append, List.drop_left]

/-- Joined to the directory it is the path again. -/
theorem joinMaybe_join (hdir : IsResolved dir) (hmore : ∀ n ∈ more, IsEntryName n) :
    joinMaybe dir (join '/' more) = absPath (namesOf dir ++ more) := by
  have hnames := isEntryName_namesOf dir
  by_cases hne : more = []
  · have hnil : join '/' more = [] := (join_ne_nil_iff hmore).mpr hne
    have hnormal : normalizePath (absPath (namesOf dir)) = absPath (namesOf dir) := by
      by_cases hroot : namesOf dir = []
      · rw [hroot]
        rfl
      · exact normalizePath_absPath hroot hnames
    rw [joinMaybe, if_pos hnil, hne, List.append_nil, ← hnormal, ← hdir]
  · have hjoin : join '/' more ≠ [] := join_ne_nil hne hmore
    have habs : IsAbsolute dir := by
      rw [hdir]
      exact isAbsolute_absPath _
    rw [joinMaybe, if_neg hjoin, joinPath_absolute habs hjoin (getLast?_join hmore), namesOf_append,
      segments_join hne hmore, foldl_names _ hmore, List.reverse_append, List.reverse_reverse,
      List.reverse_reverse]

end

example : resolvePath (js "/w") [js "/a/b", js "../c"] = js "/a/c" ∧
    pathRelative (js "/w") (js "/a") (js "/a/b/c") = js "b/c" ∧
    pathRelative (js "/w") (js "/a/b") (js "/a/c") = js "../c" := by decide +kernel

end HuginAgent
