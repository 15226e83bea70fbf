/-
The worktrees of different attempts.

The id of an attempt becomes one segment of a path, and what may not stand in a segment becomes an
underscore.  So two ids have one worktree exactly when they are as long and differ only where both
have become one (`wtDirOf_ne_iff`).

Over a run, attempts create and remove their worktrees in any order.  Every entry lies where its
owner's id puts it (`Owned`), and attempts whose ids are told apart never meet (`worktrees_apart`).
-/
import HuginAgent.Kit.Machine
import HuginAgent.Workspace.Admission

namespace HuginAgent

/-! ### Ids -/

/-- `[A-Za-z0-9-]`: what only stands for itself in a segment. -/
def isPlainUnit (u : UInt16) : Bool := isAlnum u || u = unit '-'

/-- The ids differ in length, or somewhere in units that are not both made an underscore. -/
def ToldApart (a b : JsString) : Prop :=
  a.length ≠ b.length ∨ ∃ (i : Nat) (u v : UInt16), a[i]? = some u ∧ b[i]? = some v ∧ u ≠ v ∧
    (isPlainUnit u = true ∨ isPlainUnit v = true)

theorem safeUnit_plain {u : UInt16} (h : isPlainUnit u = true) : safeUnit u = u := by
  refine if_pos ?_
  rw [isPlainUnit, Bool.or_eq_true] at h
  rw [isSegmentUnit, Bool.or_eq_true, Bool.or_eq_true]
  rcases h with h | h
  · exact Or.inl (Or.inl h)
  · exact Or.inr h

theorem safeUnit_other {u : UInt16} (h : isPlainUnit u = false) : safeUnit u = unit '_' := by
  unfold safeUnit
  split
  · rename_i hsegment
    rw [isPlainUnit, Bool.or_eq_false_iff] at h
    rw [isSegmentUnit, Bool.or_eq_true, Bool.or_eq_true, h.1, h.2] at hsegment
    simpa using hsegment
  · rfl

theorem safeUnit_eq_iff {u v : UInt16} :
    safeUnit u = safeUnit v ↔ u = v ∨ isPlainUnit u = false ∧ isPlainUnit v = false := by
  have hline : isPlainUnit (unit '_') = false := by decide
  cases hu : isPlainUnit u with
  | true =>
      cases hv : isPlainUnit v with
      | true => simp [safeUnit_plain hu, safeUnit_plain hv]
      | false =>
          rw [safeUnit_plain hu, safeUnit_other hv]
          refine iff_of_false ?_ ?_
          · rintro rfl
            rw [hline] at hu
            exact nomatch hu
          · rintro (rfl | ⟨hc, -⟩)
            · rw [hv] at hu
              exact nomatch hu
            · exact nomatch hc
  | false =>
      cases hv : isPlainUnit v with
      | true =>
          rw [safeUnit_other hu, safeUnit_plain hv]
          refine iff_of_false ?_ ?_
          · rintro rfl
            rw [hline] at hv
            exact nomatch hv
          · rintro (rfl | ⟨-, hc⟩)
            · rw [hv] at hu
              exact nomatch hu
            · exact nomatch hc
      | false => simp [safeUnit_other hu, safeUnit_other hv]

/-- Two ids have different segments exactly when they are told apart. -/
theorem safeSegment_ne_iff {a b : JsString} (ha : isId a = true) (hb : isId b = true) :
    safeSegment a ≠ safeSegment b ↔ ToldApart a b := by
  have hne : ∀ {id}, isId id = true → id ≠ [] := by
    rintro id hid rfl
    exact absurd hid (by decide)
  rw [safeSegment, safeSegment, if_neg (hne ha), if_neg (hne hb), ToldApart]
  constructor
  · intro hdiffer
    by_cases hlength : a.length = b.length
    · right
      by_contra hnone
      refine hdiffer (List.ext_getElem? fun i => ?_)
      rw [List.getElem?_map, List.getElem?_map]
      by_cases hi : i < a.length
      · have hu := List.getElem?_eq_getElem hi
        have hv := List.getElem?_eq_getElem (hlength ▸ hi : i < b.length)
        rw [hu, hv, Option.map_some, Option.map_some, Option.some_inj, safeUnit_eq_iff]
        by_contra hunits
        rw [not_or, not_and_or, Bool.not_eq_false, Bool.not_eq_false] at hunits
        exact hnone ⟨i, _, _, hu, hv, hunits.1, hunits.2⟩
      · rw [List.getElem?_eq_none (Nat.not_lt.mp hi),
          List.getElem?_eq_none (hlength ▸ Nat.not_lt.mp hi)]
    · exact Or.inl hlength
  · rintro (hlength | ⟨i, u, v, hu, hv, hdiffer, hplain⟩) heq
    · have hlengths := congrArg List.length heq
      rw [List.length_map, List.length_map] at hlengths
      exact hlength hlengths
    · have hunits := congrArg (fun s : JsString => s[i]?) heq
      simp only [List.getElem?_map, hu, hv, Option.map_some, Option.some_inj] at hunits
      rcases safeUnit_eq_iff.mp hunits with rfl | ⟨hu', hv'⟩
      · exact hdiffer rfl
      · rw [hu', hv'] at hplain
        simp at hplain

section

variable {fs : WorkspaceFs} {stateDir : JsString} {a b : JsString}

theorem wtDirOf_inj (h : wtDirOf fs stateDir a = wtDirOf fs stateDir b) :
    safeSegment a = safeSegment b := by
  have hnames := congrArg namesOf h
  rw [namesOf_wtDirOf, namesOf_wtDirOf] at hnames
  exact (List.cons.inj (List.append_cancel_left hnames)).1

theorem wtDirOf_ne_iff (ha : isId a = true) (hb : isId b = true) :
    wtDirOf fs stateDir a ≠ wtDirOf fs stateDir b ↔ ToldApart a b := by
  rw [← safeSegment_ne_iff ha hb]
  refine not_congr ⟨wtDirOf_inj, fun h => ?_⟩
  rw [wtDirOf, wtDirOf, h]

end

/-! ### Runs -/

/-- What is under `<stateDir>/worktrees`, with the attempt that has made it, and the attempts that
hold a worktree. -/
structure Worktrees where
  entries : List (JsString × JsString)
  handles : List JsString

/-- `works` says whether `git` succeeds where nothing stands against it. -/
inductive WorktreeAct
  | create (attemptId : JsString) (works : Bool)
  | cleanup (attemptId : JsString) (works : Bool)

def WorktreeAct.attemptId : WorktreeAct → JsString
  | .create attemptId _ | .cleanup attemptId _ => attemptId

namespace Worktrees

variable (fs : WorkspaceFs) (stateDir : JsString)

def occupied (s : Worktrees) (dir : JsString) : Bool := s.entries.any fun e => e.1 = dir

/-- `git worktree add` refuses a path that is there, and `git worktree remove --force` takes away
what is at the path. -/
def step (s : Worktrees) : WorktreeAct → Worktrees
  | .create attemptId works =>
      let wtDir := wtDirOf fs stateDir attemptId
      if s.occupied wtDir || !works then s
      else ⟨(wtDir, attemptId) :: s.entries, attemptId :: s.handles⟩
  | .cleanup attemptId works =>
      if s.handles.contains attemptId then
        ⟨if works then s.entries.filter fun e => e.1 ≠ wtDirOf fs stateDir attemptId else s.entries,
          s.handles.erase attemptId⟩
      else s

def start : Worktrees := ⟨[], []⟩

/-- The act comes upon the worktree of another attempt: it cannot create its own, or takes the
other's away. -/
def Meets (s : Worktrees) (act : WorktreeAct) : Prop :=
  (∀ attemptId works, act = .cleanup attemptId works → attemptId ∈ s.handles) ∧
    ∃ e ∈ s.entries, e.1 = wtDirOf fs stateDir act.attemptId ∧ e.2 ≠ act.attemptId

/-- In no state of the run does an act come upon the worktree of another attempt. -/
def Apart (acts : List WorktreeAct) : Prop :=
  Machine.Along (step fs stateDir) (fun s act => ¬ s.Meets fs stateDir act) start acts

/-- Every entry is one of these attempts', and lies where the attempt's id puts it. -/
def Owned (ids : List JsString) (s : Worktrees) : Prop :=
  ∀ e ∈ s.entries, e.2 ∈ ids ∧ e.1 = wtDirOf fs stateDir e.2

variable {fs stateDir} {ids : List JsString} {s : Worktrees}

theorem owned_step (h : s.Owned fs stateDir ids) {act : WorktreeAct} (hact : act.attemptId ∈ ids) :
    (s.step fs stateDir act).Owned fs stateDir ids := by
  cases act with
  | create attemptId works =>
      rw [step]
      by_cases hblocked : (s.occupied (wtDirOf fs stateDir attemptId) || !works) = true
      · rw [if_pos hblocked]
        exact h
      · rw [if_neg hblocked]
        intro e he
        rcases List.mem_cons.mp he with rfl | he
        · dsimp only
          exact ⟨hact, rfl⟩
        · exact h e he
  | cleanup attemptId works =>
      rw [step]
      by_cases hheld : s.handles.contains attemptId = true
      · rw [if_pos hheld]
        cases works with
        | true => exact fun e he => h e (List.mem_of_mem_filter he)
        | false => exact h
      · rw [if_neg hheld]
        exact h

/-- Attempts whose directories differ do not meet. -/
theorem not_meets (h : s.Owned fs stateDir ids) {act : WorktreeAct} (hact : act.attemptId ∈ ids)
    (hdirs : ∀ a ∈ ids, ∀ b ∈ ids, a ≠ b → wtDirOf fs stateDir a ≠ wtDirOf fs stateDir b) :
    ¬ s.Meets fs stateDir act := by
  rintro ⟨-, e, he, hdir, howner⟩
  obtain ⟨hid, hplace⟩ := h e he
  exact hdirs e.2 hid act.attemptId hact howner (hplace.symm.trans hdir)

theorem apart_of_dirs {acts : List WorktreeAct} (hids : ∀ act ∈ acts, act.attemptId ∈ ids)
    (hdirs : ∀ a ∈ ids, ∀ b ∈ ids, a ≠ b → wtDirOf fs stateDir a ≠ wtDirOf fs stateDir b) :
    Apart fs stateDir acts := by
  have hacts : Machine.Along (step fs stateDir) (fun _ act => act.attemptId ∈ ids) start acts := by
    rw [Machine.along_iff]
    intro before act after hsplit
    refine hids act ?_
    rw [hsplit]
    exact List.mem_append_right _ List.mem_cons_self
  have hstart : start.Owned fs stateDir ids := nofun
  have hrun := Machine.along_invariant (I := Owned fs stateDir ids)
    (fun s act h hact => owned_step h hact) hstart hacts
  exact Machine.along_mono (fun s act h => not_meets h.1 h.2 hdirs) hrun

end Worktrees

/-- **Two attempts have different worktrees exactly when their ids are told apart, and in a run of
attempts that are, no attempt ever comes upon the worktree of another.** -/
theorem worktrees_apart (fs : WorkspaceFs) (stateDir : JsString) :
    (∀ a b, isId a = true → isId b = true →
      (wtDirOf fs stateDir a ≠ wtDirOf fs stateDir b ↔ ToldApart a b)) ∧
    ∀ acts : List WorktreeAct,
      (∀ act ∈ acts, isId act.attemptId = true) →
      (∀ act ∈ acts, ∀ act' ∈ acts, act.attemptId ≠ act'.attemptId →
        ToldApart act.attemptId act'.attemptId) →
      Worktrees.Apart fs stateDir acts := by
  refine ⟨fun a b ha hb => wtDirOf_ne_iff ha hb, ?_⟩
  intro acts hids hapart
  refine Worktrees.apart_of_dirs (fun act hact => List.mem_map_of_mem hact) ?_
  simp only [List.forall_mem_map]
  intro act hact act' hact' hne
  exact (wtDirOf_ne_iff (hids act hact) (hids act' hact')).mpr (hapart act hact act' hact' hne)

/-- A file system without links, on which everything is there. -/
def fullFs : WorkspaceFs where
  workingDir := [sep]
  realpath path := some (absPath (namesOf path))
  isResolved h := by
    rw [← Option.some.inj h]
    exact isResolved_absPath (isEntryName_namesOf _)
  exist _ := true

/-- Two attempts that are told apart by one letter. -/
theorem fullFs_apart :
    wtDirOf fullFs (js "/state") (js "a/1") ≠ wtDirOf fullFs (js "/state") (js "a/2") ∧
      Worktrees.Apart fullFs (js "/state")
        [.create (js "a/1") true, .create (js "a/2") true, .cleanup (js "a/1") true] := by
  have hone : ToldApart (js "a/1") (js "a/2") :=
    Or.inr ⟨2, unit '1', unit '2', rfl, rfl, by decide, Or.inl (by decide)⟩
  have htwo : ToldApart (js "a/2") (js "a/1") :=
    Or.inr ⟨2, unit '2', unit '1', rfl, rfl, by decide, Or.inl (by decide)⟩
  obtain ⟨hdirs, hruns⟩ := worktrees_apart fullFs (js "/state")
  refine ⟨(hdirs _ _ (by decide) (by decide)).mpr hone, hruns _ ?_ ?_⟩
  · simp only [List.forall_mem_cons, WorktreeAct.attemptId]
    exact ⟨by decide, by decide, by decide, List.forall_mem_nil _⟩
  · simp only [List.forall_mem_cons, List.not_mem_nil, false_implies, implies_true, and_true,
      WorktreeAct.attemptId, ne_eq, not_true_eq_false, true_and]
    exact ⟨fun _ => hone, ⟨fun _ => htwo, fun _ => htwo⟩, fun _ => hone⟩

/-- A slash and a dot are one in a segment: the second attempt finds the worktree of the first. -/
theorem slash_meets_dot :
    isId (js "a/b") = true ∧ isId (js "a.b") = true ∧ js "a/b" ≠ js "a.b" ∧
      wtDirOf fullFs (js "/state") (js "a/b") = wtDirOf fullFs (js "/state") (js "a.b") ∧
      ¬ Worktrees.Apart fullFs (js "/state")
        [.create (js "a/b") true, .create (js "a.b") true] := by
  have hsame : wtDirOf fullFs (js "/state") (js "a/b") = wtDirOf fullFs (js "/state") (js "a.b") := by
    decide +kernel
  refine ⟨by decide, by decide, by decide, hsame, fun hrun => ?_⟩
  have hnot : ¬ (Worktrees.start.step fullFs (js "/state") (.create (js "a/b") true)).Meets fullFs
      (js "/state") (.create (js "a.b") true) := hrun.2.1
  have hentry : (wtDirOf fullFs (js "/state") (js "a/b"), js "a/b") ∈
      (Worktrees.start.step fullFs (js "/state") (.create (js "a/b") true)).entries :=
    List.mem_cons_self
  exact hnot ⟨(fun _ _ hc => nomatch hc), _, hentry, hsame, by decide⟩

end HuginAgent
