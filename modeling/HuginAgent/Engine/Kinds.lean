/-
Every event of a run has a kind of the protocol.

A line that is read becomes events of core kinds, or of one under the engine's namespace whose
letters the sanitizing leaves; the events the adapter makes itself are of core kinds.  Nothing
else calls the holder's `onEvent`, so it holds of all that a run has told.
-/
import HuginAgent.Engine.Ended

namespace HuginAgent

/-! ### Lines -/

theorem vendorKind_kind {engine : HistoryEngine} {suffix : JsValue} {kind : JsString}
    (h : vendorKind engine suffix = some kind) : isEventKind kind = true := by
  have hread : suffix.truthy = true → ∃ s, suffix = .str s := by
    intro htruthy
    unfold vendorKind at h
    rw [if_pos htruthy] at h
    cases suffix with
    | str s => exact ⟨s, rfl⟩
    | _ => cases h
  obtain ⟨kind', hkind', hevent⟩ := (vendorKind_iff engine suffix).mpr hread
  obtain rfl := Option.some.inj (h.symm.trans hkind')
  exact hevent

theorem vendorBlock_kind {role : String} {b : JsValue} {ev : JsObject}
    (h : vendorBlock role b = some ev) : HasEventKind ev := by
  obtain ⟨kind, hkind, rfl⟩ := Option.map_eq_some_iff.mp h
  obtain ⟨type, -, hvendor⟩ := Option.bind_eq_some_iff.mp hkind
  exact hasEventKind_cons (vendorKind_kind hvendor) _

theorem assistantBlock_kind {b : JsValue} {ev : JsObject} (h : assistantBlock b = some ev) :
    HasEventKind ev := by
  unfold assistantBlock at h
  split at h
  · cases h
  split at h
  · obtain rfl := Option.some.inj h
    exact hasEventKind_cons (by decide) _
  split at h
  · obtain rfl := Option.some.inj h
    exact hasEventKind_cons (by decide) _
  · exact vendorBlock_kind h

theorem userBlock_kind {b : JsValue} {ev : JsObject} (h : userBlock b = some ev) :
    HasEventKind ev := by
  unfold userBlock at h
  split at h
  · cases h
  split at h
  · obtain rfl := Option.some.inj h
    exact hasEventKind_cons (by decide) _
  · exact vendorBlock_kind h

/-- What is read element by element. -/
theorem forall_mem_of_mapM {α β : Type} {f : α → Option β} {P : β → Prop}
    (hf : ∀ x y, f x = some y → P y) {l : List α} {r : List β} (h : l.mapM f = some r) :
    ∀ y ∈ r, P y := by
  induction l generalizing r with
  | nil =>
      obtain rfl := Option.some.inj h
      exact List.forall_mem_nil P
  | cons x rest ih =>
      rw [List.mapM_cons, Option.bind_eq_bind, Option.bind_eq_some_iff] at h
      obtain ⟨y, hy, h⟩ := h
      rw [Option.bind_eq_bind, Option.bind_eq_some_iff] at h
      obtain ⟨ys, hys, h⟩ := h
      obtain rfl := Option.some.inj h
      exact List.forall_mem_cons.mpr ⟨hf x y hy, ih hys⟩

/-- **A line that is read becomes events of the protocol's kinds.** -/
theorem normalizeClaudeLine_kind {line : JsValue} {evs : List JsObject}
    (h : normalizeClaudeLine line = some evs) : ∀ ev ∈ evs, HasEventKind ev := by
  unfold normalizeClaudeLine at h
  split at h
  · dsimp only at h
    split at h
    · obtain rfl := Option.some.inj h
      exact List.forall_mem_singleton.mpr (hasEventKind_cons (by decide) _)
    split at h
    · split at h
      · obtain ⟨events, hevents, rfl⟩ := Option.map_eq_some_iff.mp h
        exact List.forall_mem_append.mpr
          ⟨forall_mem_of_mapM (fun _ _ => assistantBlock_kind) hevents, claudeUsage_kind _⟩
      · obtain rfl := Option.some.inj h
        exact List.forall_mem_cons.mpr ⟨hasEventKind_cons (by decide) _, claudeUsage_kind _⟩
      · obtain rfl := Option.some.inj h
        exact claudeUsage_kind _
    split at h
    · split at h
      · exact forall_mem_of_mapM (fun _ _ => userBlock_kind) h
      · obtain rfl := Option.some.inj h
        exact List.forall_mem_nil _
    split at h
    · obtain rfl := Option.some.inj h
      exact List.forall_mem_singleton.mpr (hasEventKind_cons (by decide) _)
    · obtain ⟨kind, hkind, rfl⟩ := Option.map_eq_some_iff.mp h
      exact List.forall_mem_singleton.mpr (hasEventKind_cons (vendorKind_kind hkind) _)
  · obtain rfl := Option.some.inj h
    exact List.forall_mem_nil _

theorem claudeLineEvents_kind {number : Decimal → JsNumber} {line : JsString} {evs : List JsObject}
    (h : claudeLineEvents number line = some evs) : ∀ ev ∈ evs, HasEventKind ev := by
  unfold claudeLineEvents at h
  split at h
  · obtain rfl := Option.some.inj h
    exact List.forall_mem_nil _
  · split at h
    · obtain rfl := Option.some.inj h
      exact List.forall_mem_nil _
    · exact normalizeClaudeLine_kind h

/-! ### Runs -/

namespace ClaudeRun

variable {env : RunEnv} {st st' : ClaudeRun}

/-- Every event in the log has a kind. -/
def Kinded (st : ClaudeRun) : Prop := ∀ source ev, .event source ev ∈ st.log → HasEventKind ev

theorem Kinded.note (h : Kinded st) {e : RunEffect}
    (he : ∀ source ev, e = .event source ev → HasEventKind ev) (hlog : st'.log = st.log ++ [e]) :
    Kinded st' := by
  intro source ev hmem
  rw [hlog] at hmem
  rcases List.mem_append.mp hmem with hmem | hmem
  · exact h source ev hmem
  · exact he source ev (List.mem_singleton.mp hmem).symm

theorem Kinded.of_log (h : Kinded st) (hlog : st'.log = st.log) : Kinded st' := by
  intro source ev hmem
  rw [hlog] at hmem
  exact h source ev hmem

theorem kinded_emit (h : Kinded st) (source : EventSource) {ev : JsObject} (hev : HasEventKind ev) :
    Kinded (st.emit env source ev) := by
  have hnoted : Kinded (st.note (.event source ev)) := by
    refine h.note ?_ rfl
    intro source' ev' he
    cases he
    exact hev
  unfold emit
  split
  · exact hnoted.note (fun _ _ he => by cases he) rfl
  · exact hnoted

theorem kinded_emitAll (h : Kinded st) (source : EventSource) {evs : List JsObject}
    (hevs : ∀ ev ∈ evs, HasEventKind ev) : Kinded (evs.foldl (emit env source) st) := by
  induction evs generalizing st with
  | nil => exact h
  | cons ev rest ih =>
      obtain ⟨hev, hrest⟩ := List.forall_mem_cons.mp hevs
      exact ih (kinded_emit h source hev) hrest

theorem kinded_finish (h : Kinded st) (outcome : EngineOutcome) : Kinded (st.finish env outcome) := by
  unfold finish
  split
  · exact h
  · exact h.note (fun _ _ he => by cases he) rfl

theorem kinded_drainLines (h : Kinded st) (lines : List JsString) (rest : JsString) :
    Kinded (drainLines env lines rest st) := by
  induction lines generalizing st with
  | nil => exact h.of_log rfl
  | cons line lines ih =>
      rw [drainLines]
      split
      · exact h.of_log rfl
      · split
        · exact h.of_log rfl
        · rename_i events hevents
          exact ih (kinded_emitAll h .stdout (claudeLineEvents_kind hevents))

theorem kinded_drain (h : Kinded st) : Kinded (st.drain env) := kinded_drainLines h _ _

theorem kinded_killGroup (h : Kinded st) (sig : RunSignal) : Kinded (st.killGroup sig) := by
  unfold killGroup
  split
  · exact h.note (fun _ _ he => by cases he) rfl
  · exact h

theorem kinded_abort (h : Kinded st) {ev : JsObject} (hev : HasEventKind ev) (errorKind : JsString) :
    Kinded (st.abort env ev errorKind) := by
  have hended : Kinded { st with phase := .ended } := h.of_log rfl
  exact kinded_finish (kinded_emit hended .engine hev) _

theorem kinded_spawn (h : Kinded st) (spawned : SpawnResult) : Kinded (st.spawn env spawned) := by
  cases spawned with
  | throws => exact h.of_log rfl
  | child pid =>
      unfold spawn setTimeoutTimer
      dsimp only
      split
      · exact h.of_log rfl
      · exact h.of_log rfl

theorem engineError_kind (error : JsString) : HasEventKind (engineError error) :=
  hasEventKind_cons (by decide) _

/-- One case for each input. -/
theorem kinded_handle (h : Kinded st) (input : RunInput) : Kinded (st.handle env input) := by
  cases input with
  | start worktree spawned =>
      unfold handle start
      dsimp only
      split
      · exact h.of_log rfl
      · split
        · exact kinded_abort h (hasEventKind_cons (by decide) _) _
        · split
          · exact h.of_log rfl
          · refine kinded_spawn ?_ spawned
            exact h.of_log rfl
  | bridgeFailed message => exact kinded_abort h (engineError_kind _) _
  | bridgeStarted config spawned =>
      unfold handle bridgeStarted
      dsimp only
      split
      · exact h.of_log rfl
      · split
        · exact kinded_abort h (engineError_kind _) _
        · exact kinded_spawn h spawned
  | stdout chunk => exact kinded_drain (h.of_log rfl)
  | stderr chunk => exact kinded_emit h .stderr (hasEventKind_cons (by decide) _)
  | childError error => exact kinded_finish (kinded_emit h .engine (engineError_kind _)) _
  | close code signalled =>
      unfold handle close
      dsimp only
      split
      · exact kinded_drain h
      · exact kinded_finish (kinded_drain h) _
  | timer n =>
      unfold handle fire
      dsimp only
      split
      · exact h
      · refine kinded_finish (kinded_killGroup ?_ .kill) _
        exact h.of_log rfl
      · refine kinded_killGroup ?_ .kill
        exact h.of_log rfl
  | approval req =>
      unfold handle raise
      dsimp only
      split
      · exact h.note (fun _ _ he => by cases he) rfl
      · exact h
  | pause => exact h.note (fun _ _ he => by cases he) rfl
  | resume => exact kinded_drain (h.note (fun _ _ he => by cases he) rfl)
  | cancel graceMs =>
      unfold handle cancel
      dsimp only
      split
      · refine kinded_finish ?_ _
        exact h.of_log rfl
      · have hcancelled : Kinded { st with cancelled := true } := h.of_log rfl
        exact (kinded_killGroup hcancelled .term).of_log rfl

/-- **Every event a run tells has a kind of the protocol.** -/
theorem run_kinded (env : RunEnv) (inputs : List RunInput) : Kinded (run env inputs) := by
  refine Machine.run_invariant_all (step env) ?_ (fun _ _ hmem => nomatch hmem) inputs
  intro st input h
  unfold step
  split
  · exact h
  · exact kinded_handle h input

end ClaudeRun

end HuginAgent
