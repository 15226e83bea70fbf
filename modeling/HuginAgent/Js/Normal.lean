/-
Paths in normal form.

An absolute path comes to a list of names, its segments without `.` and with every `..` taken
back (`namesOf`).  `join` and `dirname` do to the names what their own names say, and one path is
below another when its names go on from those of the other (`isBelow_iff`).  A relative path
climbs some directories and then names others (`Relative`), whatever it is joined to.
-/
import HuginAgent.Js.Strings

namespace HuginAgent

/-! ### `dirname` -/

/-- `dirname(path)`. -/
def dirname (path : JsString) : JsString :=
  if path = [] then js "."
  else
    let before := ((path.drop 1).rdropWhile fun u => u = sep).rdropWhile fun u => u ≠ sep
    if before = [] then if path.head? = some sep then [sep] else js "."
    else if path.head? = some sep ∧ before.dropLast = [] then js "//"
    else path.take 1 ++ before.dropLast

example : dirname (js "/a/b/") = js "/a" ∧ dirname (js "//a") = js "//" := by decide +kernel

/-! ### Names -/

/-- A name that a directory can hold. -/
structure IsEntryName (name : JsString) : Prop where
  ne_nil : name ≠ []
  sep : sep ∉ name
  ne_dot : name ≠ js "."
  ne_dots : name ≠ js ".."

/-- The names of an absolute path. -/
def namesOf (path : JsString) : List JsString :=
  ((segments path).foldl (pushSegment true) []).reverse

/-- The absolute path of some names. -/
def absPath (names : List JsString) : JsString := sep :: join '/' names

/-- The path of some names, with a separator after each. -/
def dirText (names : List JsString) : JsString := sep :: names.flatMap fun name => name ++ [sep]

def IsAbsolute (path : JsString) : Prop := path.head? = some sep

theorem isAbsolute_absPath (names : List JsString) : IsAbsolute (absPath names) := rfl

/-- It lies below the directory, both in normal form. -/
def IsBelow (dir path : JsString) : Prop :=
  let dir := normalizePath dir
  (if dir.getLast? = some sep then dir else dir ++ [sep]) <+: normalizePath path ∧
    normalizePath path ≠ dir

section

variable {names more : List JsString} {name path : JsString}

theorem segments_append (a b : JsString) : segments (a ++ sep :: b) = segments a ++ segments b := by
  refine splitAll_ind (motive := fun text pieces =>
    splitAll sep (text ++ sep :: b) = pieces ++ splitAll sep b) ?_ ?_ a
  · intro text h
    exact splitAll_append h b
  · intro line rest hline ih
    rw [List.append_assoc, List.cons_append, splitAll_append hline, ih]
    rfl

theorem segments_of_notMem (h : sep ∉ path) : segments path = [path] := splitAll_of_notMem h

theorem segments_join (hne : names ≠ []) (h : ∀ n ∈ names, IsEntryName n) :
    segments (join '/' names) = names := by
  induction names with
  | nil => exact absurd rfl hne
  | cons first rest ih =>
      obtain ⟨hfirst, hrest⟩ := List.forall_mem_cons.mp h
      cases rest with
      | nil =>
          rw [join, List.intercalate_singleton]
          exact segments_of_notMem hfirst.sep
      | cons second rest =>
          have hjoin : join '/' (first :: second :: rest) =
              first ++ sep :: join '/' (second :: rest) := by
            rw [join, List.intercalate_cons_cons, List.append_assoc]
            rfl
          rw [hjoin, segments_append, segments_of_notMem hfirst.sep,
            ih (List.cons_ne_nil _ _) hrest]
          rfl

theorem pushSegment_name {absolute : Bool} {before : List JsString} (h : IsEntryName name) :
    pushSegment absolute before name = name :: before := by
  unfold pushSegment
  rw [if_neg (not_or.mpr ⟨h.ne_nil, h.ne_dot⟩), if_neg h.ne_dots]

theorem foldl_names {absolute : Bool} (before : List JsString) (h : ∀ n ∈ names, IsEntryName n) :
    names.foldl (pushSegment absolute) before = names.reverse ++ before := by
  induction names generalizing before with
  | nil => rfl
  | cons first rest ih =>
      obtain ⟨hfirst, hrest⟩ := List.forall_mem_cons.mp h
      rw [List.foldl_cons, pushSegment_name hfirst, ih _ hrest, List.reverse_cons,
        List.append_assoc]
      rfl

theorem pushSegment_nil {absolute : Bool} (before : List JsString) :
    pushSegment absolute before [] = before := if_pos (Or.inl rfl)

theorem namesOf_absPath (h : ∀ n ∈ names, IsEntryName n) : namesOf (absPath names) = names := by
  have hsegments : segments (absPath names) = [] :: segments (join '/' names) :=
    splitAll_append List.not_mem_nil _
  rw [namesOf, hsegments, List.foldl_cons, pushSegment_nil]
  by_cases hne : names = []
  · rw [hne]
    rfl
  · rw [segments_join hne h, foldl_names [] h, List.append_nil, List.reverse_reverse]

/-- What is pushed of an absolute path are names. -/
theorem isEntryName_pushed {before segments : List JsString} (hbefore : ∀ n ∈ before, IsEntryName n)
    (h : ∀ s ∈ segments, sep ∉ s) :
    ∀ n ∈ segments.foldl (pushSegment true) before, IsEntryName n := by
  induction segments generalizing before with
  | nil => exact hbefore
  | cons s rest ih =>
      obtain ⟨hs, hrest⟩ := List.forall_mem_cons.mp h
      refine ih ?_ hrest
      unfold pushSegment
      split
      · exact hbefore
      · rename_i hdot
        obtain ⟨hne, hdot⟩ := not_or.mp hdot
        split
        · split
          · exact fun n hn => absurd hn List.not_mem_nil
          · rename_i last rest
            obtain ⟨hlast, hrest⟩ := List.forall_mem_cons.mp hbefore
            rw [if_neg hlast.ne_dots]
            exact hrest
        · rename_i hdots
          exact List.forall_mem_cons.mpr ⟨⟨hne, hs, hdot, hdots⟩, hbefore⟩

theorem isEntryName_namesOf (path : JsString) : ∀ n ∈ namesOf path, IsEntryName n := by
  intro n hn
  exact @isEntryName_pushed [] _ nofun (notMem_of_mem_splitAll path) n (List.mem_reverse.mp hn)

/-! ### Normal form -/

theorem join_ne_nil (hne : names ≠ []) (h : ∀ n ∈ names, IsEntryName n) : join '/' names ≠ [] := by
  intro hjoin
  have hsegments := segments_join hne h
  rw [hjoin] at hsegments
  have hempty : ([] : JsString) ∈ names := by
    rw [← hsegments]
    exact List.mem_singleton_self _
  exact (h [] hempty).ne_nil rfl

theorem join_ne_nil_iff (h : ∀ n ∈ names, IsEntryName n) : join '/' names = [] ↔ names = [] := by
  constructor
  · intro hjoin
    by_contra hne
    exact join_ne_nil hne h hjoin
  · rintro rfl
    rfl

theorem normalizePath_absolute (habs : IsAbsolute path) (htrailing : path.getLast? ≠ some sep) :
    normalizePath path = absPath (namesOf path) := by
  have hne : path ≠ [] := by
    rintro rfl
    exact absurd (show [].head? = some sep from habs) (by decide)
  rw [normalizePath, if_neg hne]
  simp only [show path.head? = some sep from habs, htrailing, decide_true, decide_false, if_true,
    Bool.false_eq_true, if_false]
  show (if join '/' (namesOf path) = [] then _ else _) = _
  split
  · rename_i hbody
    rw [(join_ne_nil_iff (isEntryName_namesOf path)).mp hbody]
    rfl
  · rfl

theorem getLast?_join (h : ∀ n ∈ names, IsEntryName n) : (join '/' names).getLast? ≠ some sep := by
  by_cases hne : names = []
  · rw [hne]
    exact (by decide : ([] : JsString).getLast? ≠ some sep)
  · intro hlast
    obtain ⟨init, hinit⟩ := List.getLast?_eq_some_iff.mp hlast
    have hsegments := segments_join hne h
    rw [hinit, segments_append] at hsegments
    have hempty : ([] : JsString) ∈ names := by
      rw [← hsegments]
      exact List.mem_append_right _ (List.mem_singleton_self _)
    exact (h [] hempty).ne_nil rfl

theorem getLast?_absPath (hne : names ≠ []) (h : ∀ n ∈ names, IsEntryName n) :
    (absPath names).getLast? ≠ some sep := by
  rw [absPath, List.getLast?_cons_of_ne_nil (join_ne_nil hne h)]
  exact getLast?_join h

theorem normalizePath_absPath (hne : names ≠ []) (h : ∀ n ∈ names, IsEntryName n) :
    normalizePath (absPath names) = absPath names := by
  rw [normalizePath_absolute (isAbsolute_absPath names) (getLast?_absPath hne h), namesOf_absPath h]

theorem join_append (hmore : more ≠ []) :
    join '/' (names ++ more) = (names.flatMap fun name => name ++ [sep]) ++ join '/' more := by
  induction names with
  | nil => rfl
  | cons first rest ih =>
      obtain ⟨second, others, hcons⟩ :=
        List.exists_cons_of_ne_nil (List.append_ne_nil_of_right_ne_nil rest hmore)
      have hjoin : join '/' (first :: (rest ++ more)) = first ++ [sep] ++ join '/' (rest ++ more) := by
        rw [hcons]
        exact List.intercalate_cons_cons
      rw [List.cons_append, hjoin, ih, List.flatMap_cons]
      simp only [List.append_assoc]

theorem dirText_eq (hne : names ≠ []) : dirText names = absPath names ++ [sep] := by
  rw [dirText, absPath, List.cons_append]
  refine congrArg (sep :: ·) ?_
  induction names with
  | nil => exact absurd rfl hne
  | cons first rest ih =>
      cases rest with
      | nil =>
          rw [join, List.intercalate_singleton, List.flatMap_singleton]
      | cons second rest =>
          have hjoin : join '/' (first :: second :: rest) =
              first ++ [sep] ++ join '/' (second :: rest) := List.intercalate_cons_cons
          rw [List.flatMap_cons, ih (List.cons_ne_nil _ _), hjoin]
          simp only [List.append_assoc]

theorem normalizePath_trailing (habs : IsAbsolute path) (htrailing : path.getLast? = some sep) :
    normalizePath path = dirText (namesOf path) := by
  have hne : path ≠ [] := by
    rintro rfl
    exact absurd (show [].head? = some sep from habs) (by decide)
  rw [normalizePath, if_neg hne]
  simp only [show path.head? = some sep from habs, htrailing, decide_true, if_true]
  show (if join '/' (namesOf path) = [] then _ else _) = _
  split
  · rename_i hbody
    rw [(join_ne_nil_iff (isEntryName_namesOf path)).mp hbody]
    rfl
  · rename_i hbody
    rw [dirText_eq (mt (join_ne_nil_iff (isEntryName_namesOf path)).mpr hbody)]
    rfl

theorem getLast?_dirText (names : List JsString) : (dirText names).getLast? = some sep := by
  by_cases hne : names = []
  · rw [hne]
    rfl
  · rw [dirText_eq hne, List.getLast?_concat]

/-- A directory in normal form, with the separator after it. -/
theorem normalizePath_dir (habs : IsAbsolute path) :
    (if (normalizePath path).getLast? = some sep then normalizePath path
      else normalizePath path ++ [sep]) = dirText (namesOf path) := by
  by_cases htrailing : path.getLast? = some sep
  · rw [normalizePath_trailing habs htrailing, if_pos (getLast?_dirText _)]
  · rw [normalizePath_absolute habs htrailing]
    by_cases hnames : namesOf path = []
    · rw [hnames]
      rfl
    · rw [if_neg (getLast?_absPath hnames (isEntryName_namesOf path)), dirText_eq hnames]

theorem segments_dirText (names : List JsString) (h : ∀ n ∈ names, IsEntryName n) (rest : JsString) :
    segments (dirText names ++ rest) = [] :: (names ++ segments rest) := by
  have hnames : segments (names.flatMap (fun name => name ++ [sep]) ++ rest) =
      names ++ segments rest := by
    induction names with
    | nil => rfl
    | cons first more ih =>
        obtain ⟨hfirst, hmore⟩ := List.forall_mem_cons.mp h
        rw [List.flatMap_cons, List.append_assoc, List.append_assoc, List.singleton_append,
          segments_append, segments_of_notMem hfirst.sep, ih hmore]
        rfl
  rw [dirText, List.cons_append, ← hnames]
  exact splitAll_append List.not_mem_nil _

/-- **A path is below another when its names go on from the other's.** -/
theorem isBelow_iff {dir : JsString} (hdir : IsAbsolute dir) (hne : names ≠ [])
    (h : ∀ n ∈ names, IsEntryName n) :
    IsBelow dir (absPath names) ↔ ∃ more, more ≠ [] ∧ names = namesOf dir ++ more := by
  have hsegments : segments (absPath names) = [] :: names := by
    have hfirst : segments (absPath names) = [] :: segments (join '/' names) :=
      splitAll_append List.not_mem_nil _
    rw [hfirst, segments_join hne h]
  unfold IsBelow
  rw [normalizePath_absPath hne h]
  show (if _ then normalizePath dir else normalizePath dir ++ [sep]) <+: _ ∧ _ ↔ _
  constructor
  · rw [normalizePath_dir hdir]
    rintro ⟨⟨rest, hrest⟩, -⟩
    refine ⟨segments rest, List.append_ne_nil_of_right_ne_nil _ (List.cons_ne_nil _ _), ?_⟩
    rw [← hrest, segments_dirText _ (isEntryName_namesOf dir)] at hsegments
    exact (List.cons.inj hsegments).2.symm
  · rintro ⟨more, hmore, hnames⟩
    have hmoreNames : ∀ n ∈ more, IsEntryName n :=
      fun n hn => h n (hnames ▸ List.mem_append_right _ hn)
    have hextends : dirText (namesOf dir) <+: absPath names := by
      refine ⟨join '/' more, ?_⟩
      rw [hnames, absPath, join_append hmore]
      rfl
    refine ⟨(normalizePath_dir hdir).symm ▸ hextends, ?_⟩
    intro heq
    rw [← normalizePath_dir hdir] at hextends
    split at hextends
    · rename_i hlast
      rw [← heq] at hlast
      exact getLast?_absPath hne h hlast
    · rw [heq] at hextends
      have hlength := hextends.length_le
      rw [List.length_append, List.length_singleton] at hlength
      omega

/-! ### `join` and `dirname` -/

theorem namesOf_append {dir : JsString} (name : JsString) :
    namesOf (dir ++ sep :: name) =
      ((segments name).foldl (pushSegment true) (namesOf dir).reverse).reverse := by
  rw [namesOf, segments_append, List.foldl_append, namesOf, List.reverse_reverse]

/-- What a path is joined to is pushed on its names. -/
theorem joinPath_absolute {dir : JsString} (hdir : IsAbsolute dir) (hne : name ≠ [])
    (hlast : name.getLast? ≠ some sep) :
    joinPath dir name = absPath (namesOf (dir ++ sep :: name)) := by
  have hdirNe : dir ≠ [] := by
    rintro rfl
    exact absurd (show [].head? = some sep from hdir) (by decide)
  obtain ⟨u, rest, hcons⟩ := List.exists_cons_of_ne_nil hdirNe
  have habs : IsAbsolute (dir ++ sep :: name) := by
    rw [hcons] at hdir ⊢
    exact hdir
  have htrailing : (dir ++ sep :: name).getLast? ≠ some sep := by
    rw [List.getLast?_append_of_ne_nil _ (List.cons_ne_nil _ _), List.getLast?_cons_of_ne_nil hne]
    exact hlast
  rw [joinPath, if_neg hdirNe, normalizePath_absolute habs htrailing]

theorem joinPath_name {dir : JsString} (hdir : IsAbsolute dir) (h : IsEntryName name) :
    joinPath dir name = absPath (namesOf dir ++ [name]) := by
  have hlast : name.getLast? ≠ some sep := fun hlast => h.sep (List.mem_of_getLast? hlast)
  rw [joinPath_absolute hdir h.ne_nil hlast, namesOf_append, segments_of_notMem h.sep,
    List.foldl_cons, List.foldl_nil, pushSegment_name h, List.reverse_cons, List.reverse_reverse]

theorem rdropWhile_append {p : UInt16 → Bool} (text : JsString) (h : ∀ u ∈ name, p u = true) :
    (text ++ name).rdropWhile p = text.rdropWhile p := by
  rw [List.rdropWhile, List.rdropWhile, List.reverse_append,
    List.dropWhile_append_of_pos fun u hu => h u (List.mem_reverse.mp hu)]

/-- The directory of a path has all of its names but the last. -/
theorem dirname_absPath (hname : IsEntryName name) (h : ∀ n ∈ names, IsEntryName n) :
    dirname (absPath (names ++ [name])) = absPath names := by
  have hjoin : join '/' (names ++ [name]) = (names.flatMap fun name => name ++ [sep]) ++ name := by
    rw [join_append (List.cons_ne_nil _ _)]
    exact congrArg _ List.intercalate_singleton
  have htrim : (join '/' (names ++ [name])).rdropWhile (fun u => decide (u = sep)) =
      join '/' (names ++ [name]) := by
    rw [List.rdropWhile_eq_self_iff]
    intro hne hlast
    refine @getLast?_join (names ++ [name]) ?_ ?_
    · exact List.forall_mem_append.mpr ⟨h, List.forall_mem_singleton.mpr hname⟩
    · rw [List.getLast?_eq_some_getLast hne, of_decide_eq_true hlast]
  have hkeep : ∀ u ∈ name, decide (u ≠ sep) = true :=
    fun u hu => decide_eq_true fun heq => hname.sep (heq ▸ hu)
  have hdrop : (names.flatMap fun name => name ++ [sep]).rdropWhile (fun u => decide (u ≠ sep)) =
      names.flatMap fun name => name ++ [sep] := by
    rw [List.rdropWhile_eq_self_iff]
    intro hne hlast
    have hend := getLast?_dirText names
    rw [dirText, List.getLast?_cons_of_ne_nil hne, List.getLast?_eq_some_getLast hne] at hend
    exact of_decide_eq_true hlast (Option.some.inj hend)
  have hbefore : (((absPath (names ++ [name])).drop 1).rdropWhile fun u => decide (u = sep)).rdropWhile
      (fun u => decide (u ≠ sep)) = names.flatMap fun name => name ++ [sep] := by
    rw [absPath, List.drop_one, List.tail_cons, htrim, hjoin, rdropWhile_append _ hkeep, hdrop]
  have hnonempty : absPath (names ++ [name]) ≠ [] := List.cons_ne_nil _ _
  unfold dirname
  rw [if_neg hnonempty]
  dsimp only
  rw [hbefore]
  by_cases hne : names = []
  · rw [hne]
    rfl
  · have hflat : (names.flatMap fun name => name ++ [sep]) = join '/' names ++ [sep] := by
      have hdir := dirText_eq hne
      rw [dirText, absPath, List.cons_append] at hdir
      exact (List.cons.inj hdir).2
    have hroot : ¬ ((absPath (names ++ [name])).head? = some sep ∧
        (join '/' names ++ [sep]).dropLast = []) := by
      rw [List.dropLast_concat]
      exact fun hroot => join_ne_nil hne h hroot.2
    rw [hflat, if_neg (List.append_ne_nil_of_right_ne_nil _ (List.cons_ne_nil _ _)), if_neg hroot,
      List.dropLast_concat]
    rfl

/-! ### Relative paths -/

end

/-- What a relative path comes to: the directories it climbs, and then the names, from last to
first. -/
structure Relative where
  climbs : Nat
  names : List JsString
deriving DecidableEq

namespace Relative

def push (r : Relative) (segment : JsString) : Relative :=
  if segment = [] ∨ segment = js "." then r
  else if segment = js ".." then
    match r.names with
    | [] => { r with climbs := r.climbs + 1 }
    | _ :: rest => { r with names := rest }
  else { r with names := segment :: r.names }

def ofPath (path : JsString) : Relative := (segments path).foldl push ⟨0, []⟩

theorem push_name {r : Relative} {segment : JsString} (h : IsEntryName segment) :
    r.push segment = { r with names := segment :: r.names } := by
  rw [push, if_neg (not_or.mpr ⟨h.ne_nil, h.ne_dot⟩), if_neg h.ne_dots]

theorem push_dots {r : Relative} {segment : JsString} (h : js ".." ∉ r.names) :
    js ".." ∉ (r.push segment).names := by
  unfold push
  split
  · exact h
  · split
    · split
      · rename_i heq
        rw [heq]
        exact List.not_mem_nil
      · rename_i heq
        rw [heq] at h
        exact fun hmem => h (List.mem_cons_of_mem _ hmem)
    · rename_i hne
      rw [List.mem_cons, not_or]
      exact ⟨fun heq => hne heq.symm, h⟩

/-- **A relative path takes so many names away and adds its own.** -/
theorem foldl_pushSegment {before : List JsString} (hbefore : js ".." ∉ before)
    (segments : List JsString) (r : Relative) (hr : js ".." ∉ r.names) :
    segments.foldl (pushSegment true) (r.names ++ before.drop r.climbs) =
      (segments.foldl push r).names ++ before.drop (segments.foldl push r).climbs := by
  induction segments generalizing r with
  | nil => rfl
  | cons segment rest ih =>
      have hstep : pushSegment true (r.names ++ before.drop r.climbs) segment =
          (r.push segment).names ++ before.drop (r.push segment).climbs := by
        unfold pushSegment push
        split
        · rfl
        · split
          · cases hnames : r.names with
            | nil =>
                dsimp only
                rw [List.nil_append, List.nil_append, ← List.drop_drop]
                cases hdrop : before.drop r.climbs with
                | nil => rfl
                | cons last others =>
                    have hlast : last ≠ js ".." := by
                      rintro rfl
                      exact hbefore (List.mem_of_mem_drop (hdrop ▸ List.mem_cons_self))
                    exact if_neg hlast
            | cons last others =>
                have hlast : last ≠ js ".." := by
                  rintro rfl
                  exact hr (hnames ▸ List.mem_cons_self)
                exact if_neg hlast
          · rfl
      rw [List.foldl_cons, List.foldl_cons, hstep]
      exact ih _ (push_dots hr)

end Relative

end HuginAgent
