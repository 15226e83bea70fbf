/-
The starts of the runs.

A start that goes wrong ends its run, and what it had made is removed then.  Only the call of
`spawn` is not guarded: where it throws, on an argument the system cannot take, nothing catches
that in the deferred start, the run neither has a child nor ends, and what it had made stays.
-/
import HuginAgent.Sessions.Signals

namespace HuginAgent

namespace ClaudeRun

variable {env : RunEnv} {st st' : ClaudeRun}

/-- The start has not raised.  When it is over there is a child or the run has ended, and a run
that has ended has left nothing that can be removed. -/
structure Begun (env : RunEnv) (st : ClaudeRun) : Prop where
  raised : st.fault ≠ some .start
  begun : st.phase = .ended → st.child.isSome = true ∨ st.log.countP RunEffect.isDone = 1
  worktree : st.log.countP RunEffect.isDone = 1 → env.worktreeGoes = true → st.worktree = false
  runDir : st.log.countP RunEffect.isDone = 1 → env.runDirGoes = true → st.runDir = false

/-- Where the start gets to `spawn`, that does not throw. -/
def Spawns (env : RunEnv) (st : ClaudeRun) : RunInput → Prop
  | .start (.ok _) .throws => st.finished = true ∨ env.bridged = true
  | .bridgeStarted (.ok _) .throws => st.finished = true
  | _ => True

/-- What holds of a run even if its start raises. -/
structure Placed (env : RunEnv) (st : ClaudeRun) : Prop where
  begun : st.phase = .ended → st.child.isSome = true ∨ st.finished = true ∨ st.fault = some .start
  worktree : st.finished = true → env.worktreeGoes = true → st.worktree = false
  runDir : st.finished = true → env.runDirGoes = true → st.runDir = false

/-! ### Where a start raises -/

theorem abort_fault (env : RunEnv) (st : ClaudeRun) (ev : JsObject) (errorKind : JsString) :
    (st.abort env ev errorKind).fault = st.fault := by
  unfold abort
  rw [(finish_child env _ _).2.2]
  exact (emitAll_frame env .engine { st with phase := .ended } [ev]).1

theorem spawn_fault (env : RunEnv) (st : ClaudeRun) (pid : Option Nat) :
    (st.spawn env (.child pid)).fault = st.fault := by
  unfold spawn setTimeoutTimer
  dsimp only
  split
  · rfl
  · rfl

theorem killGroup_fault (st : ClaudeRun) (sig : RunSignal) : (st.killGroup sig).fault = st.fault := by
  unfold killGroup
  split
  · rfl
  · rfl

theorem handle_raises_iff (hfault : st.fault = none) (input : RunInput) :
    (st.handle env input).fault ≠ some .start ↔ Spawns env st input := by
  have hstays : ∀ {fault : Option RunFault}, fault = st.fault → fault ≠ some .start := by
    intro fault hsame
    rw [hsame, hfault]
    exact fun h => nomatch h
  have hdrained : ∀ base : ClaudeRun, base.fault = st.fault → (base.drain env).fault ≠ some .start := by
    intro base hbase h
    exact hstays hbase (drainLines_fault env _ _ base h)
  cases input with
  | start worktree spawned =>
      unfold handle start
      dsimp only
      split
      · rename_i hfinished
        refine iff_of_true (hstays rfl) ?_
        rcases worktree with _ | _ <;> rcases spawned with _ | _
        · trivial
        · trivial
        · exact Or.inl hfinished
        · trivial
      · rename_i hfinished
        split
        · exact iff_of_true (hstays (abort_fault env st _ _)) trivial
        · split
          · rename_i hbridged
            refine iff_of_true (hstays rfl) ?_
            cases spawned with
            | throws => exact Or.inr hbridged
            | child pid => trivial
          · rename_i hbridged
            cases spawned with
            | throws => exact iff_of_false (fun h => h rfl) fun h => h.elim hfinished hbridged
            | child pid => exact iff_of_true (hstays (spawn_fault env { st with worktree := true } pid)) trivial
  | bridgeFailed message => exact iff_of_true (hstays (abort_fault env st _ _)) trivial
  | bridgeStarted config spawned =>
      unfold handle bridgeStarted
      dsimp only
      split
      · rename_i hfinished
        refine iff_of_true (hstays rfl) ?_
        rcases config with _ | _ <;> rcases spawned with _ | _
        · trivial
        · trivial
        · exact hfinished
        · trivial
      · rename_i hfinished
        split
        · exact iff_of_true (hstays (abort_fault env st _ _)) trivial
        · cases spawned with
          | throws => exact iff_of_false (fun h => h rfl) hfinished
          | child pid => exact iff_of_true (hstays (spawn_fault env st pid)) trivial
  | stdout chunk =>
      exact iff_of_true (hdrained { st with stdoutBuf := st.stdoutBuf ++ utf8Decode chunk } rfl) trivial
  | stderr chunk => exact iff_of_true (hstays (emitAll_frame env .stderr st [_]).1) trivial
  | childError error =>
      refine iff_of_true (hstays ?_) trivial
      exact (finish_child env _ _).2.2.trans (emitAll_frame env .engine st [engineError error]).1
  | close code signalled =>
      refine iff_of_true ?_ trivial
      unfold handle close
      dsimp only
      split
      · exact hdrained st rfl
      · rw [(finish_child env _ _).2.2]
        exact hdrained st rfl
  | timer n =>
      refine iff_of_true (hstays ?_) trivial
      unfold handle fire
      dsimp only
      split
      · rfl
      · exact (finish_child env _ _).2.2.trans (killGroup_fault _ _)
      · exact killGroup_fault _ _
  | approval req =>
      refine iff_of_true (hstays ?_) trivial
      unfold handle raise
      dsimp only
      split
      · rfl
      · rfl
  | pause => exact iff_of_true (hstays rfl) trivial
  | resume => exact iff_of_true (hdrained { st.note .resumed with paused := false } rfl) trivial
  | cancel graceMs =>
      refine iff_of_true (hstays ?_) trivial
      unfold handle cancel
      dsimp only
      split
      · exact (finish_child env _ _).2.2
      · exact killGroup_fault _ _

/-! ### What a start leaves -/

/-- What the start has made stays, and so does where it is, but for an error. -/
structure Holds (st st' : ClaudeRun) : Prop where
  phase : st'.phase = st.phase
  child : st'.child = st.child
  finished : st'.finished = st.finished
  worktree : st'.worktree = st.worktree
  runDir : st'.runDir = st.runDir
  fault : st.fault = some .start → st'.fault = some .start

theorem Holds.placed (h : Holds st st') (hst : Placed env st) : Placed env st' := by
  refine ⟨fun hphase => ?_, ?_, ?_⟩
  · rw [h.phase] at hphase
    rw [h.child, h.finished]
    rcases hst.begun hphase with hchild | hfinished | hfault
    · exact Or.inl hchild
    · exact Or.inr (Or.inl hfinished)
    · exact Or.inr (Or.inr (h.fault hfault))
  · rw [h.finished, h.worktree]
    exact hst.worktree
  · rw [h.finished, h.runDir]
    exact hst.runDir

theorem Tells.holds (h : Tells st st') (hfault : st.fault = none) : Holds st st' := by
  obtain ⟨effects, -, hst'⟩ := h
  refine ⟨?_, ?_, ?_, ?_, ?_, fun h => ?_⟩
  · rw [hst']
  · rw [hst']
  · rw [hst']
  · rw [hst']
  · rw [hst']
  · rw [hfault] at h
    exact nomatch h

theorem killGroup_holds (st : ClaudeRun) (sig : RunSignal) : Holds st (st.killGroup sig) := by
  unfold killGroup
  split
  · exact ⟨rfl, rfl, rfl, rfl, rfl, id⟩
  · exact ⟨rfl, rfl, rfl, rfl, rfl, id⟩

/-- The end removes what the start has made. -/
theorem finish_placed (hworktree : st.finished = true → env.worktreeGoes = true → st.worktree = false)
    (hrunDir : st.finished = true → env.runDirGoes = true → st.runDir = false)
    (outcome : EngineOutcome) : Placed env (st.finish env outcome) := by
  unfold finish
  split
  · rename_i hfinished
    exact ⟨fun _ => Or.inr (Or.inl hfinished), hworktree, hrunDir⟩
  · refine ⟨fun _ => Or.inr (Or.inl rfl), fun _ hgoes => ?_, fun _ hgoes => ?_⟩
    · dsimp only
      rw [hgoes]
      exact Bool.and_false _
    · dsimp only
      rw [hgoes]
      exact Bool.and_false _

theorem abort_placed (hst : Placed env st) (hfault : st.fault = none) (ev : JsObject)
    (errorKind : JsString) : Placed env (st.abort env ev errorKind) := by
  have hholds := (emit_tells env .engine { st with phase := .ended } ev).1.holds hfault
  unfold abort
  refine finish_placed ?_ ?_ _
  · rw [hholds.finished, hholds.worktree]
    exact hst.worktree
  · rw [hholds.finished, hholds.runDir]
    exact hst.runDir

theorem spawn_placed (hunfinished : st.finished = false) (spawned : SpawnResult) :
    Placed env (st.spawn env spawned) := by
  have hnot : ∀ {P : Prop}, st.finished = true → P := by
    intro P h
    rw [hunfinished] at h
    exact nomatch h
  cases spawned with
  | throws => exact ⟨fun _ => Or.inr (Or.inr rfl), fun h => hnot h, fun h => hnot h⟩
  | child pid =>
      unfold spawn setTimeoutTimer
      dsimp only
      split
      · exact ⟨fun _ => Or.inl rfl, fun h => hnot h, fun h => hnot h⟩
      · exact ⟨fun _ => Or.inl rfl, fun h => hnot h, fun h => hnot h⟩

theorem handle_placed (hst : Placed env st) (hfault : st.fault = none) (input : RunInput) :
    Placed env (st.handle env input) := by
  cases input with
  | start worktree spawned =>
      unfold handle start
      dsimp only
      split
      · rename_i hfinished
        exact ⟨fun _ => Or.inr (Or.inl hfinished), hst.worktree, hst.runDir⟩
      · rename_i hfinished
        split
        · exact abort_placed hst hfault _ _
        · split
          · exact ⟨fun h => (nomatch h), fun h => absurd h hfinished, hst.runDir⟩
          · have hunfinished : ({ st with worktree := true } : ClaudeRun).finished = false :=
              Bool.eq_false_iff.mpr hfinished
            exact spawn_placed hunfinished spawned
  | bridgeFailed message => exact abort_placed hst hfault _ _
  | bridgeStarted config spawned =>
      unfold handle bridgeStarted
      dsimp only
      split
      · rename_i hfinished
        exact ⟨fun _ => Or.inr (Or.inl hfinished), hst.worktree, hst.runDir⟩
      · rename_i hfinished
        split
        · exact abort_placed hst hfault _ _
        · exact spawn_placed (Bool.eq_false_iff.mpr hfinished) spawned
  | stdout chunk =>
      have hbuffered : Placed env { st with stdoutBuf := st.stdoutBuf ++ utf8Decode chunk } :=
        ⟨hst.begun, hst.worktree, hst.runDir⟩
      exact Holds.placed (Tells.holds (drain_tells env _) hfault) hbuffered
  | stderr chunk => exact ((emit_tells env .stderr st _).1.holds hfault).placed hst
  | childError error =>
      have hemitted := ((emit_tells env .engine st (engineError error)).1.holds hfault).placed hst
      exact finish_placed hemitted.worktree hemitted.runDir _
  | close code signalled =>
      have hdrained := ((drain_tells env st).holds hfault).placed hst
      unfold handle close
      dsimp only
      split
      · exact hdrained
      · exact finish_placed hdrained.worktree hdrained.runDir _
  | timer n =>
      unfold handle fire
      dsimp only
      split
      · exact hst
      · have hcleared : Placed env { st with timers := st.timers.clear (some n), cancelled := true } :=
          ⟨hst.begun, hst.worktree, hst.runDir⟩
        have hkilled := (killGroup_holds _ .kill).placed hcleared
        exact finish_placed hkilled.worktree hkilled.runDir _
      · have hcleared : Placed env { st with timers := st.timers.clear (some n) } :=
          ⟨hst.begun, hst.worktree, hst.runDir⟩
        exact (killGroup_holds _ .kill).placed hcleared
  | approval req =>
      unfold handle raise
      dsimp only
      split
      · exact ⟨hst.begun, hst.worktree, hst.runDir⟩
      · exact hst
  | pause => exact ⟨hst.begun, hst.worktree, hst.runDir⟩
  | resume =>
      have hresumed : Placed env { st.note .resumed with paused := false } :=
        ⟨hst.begun, hst.worktree, hst.runDir⟩
      exact Holds.placed (Tells.holds (drain_tells env _) hfault) hresumed
  | cancel graceMs =>
      have hcancelled : Placed env { st with cancelled := true } :=
        ⟨hst.begun, hst.worktree, hst.runDir⟩
      unfold handle cancel
      dsimp only
      split
      · exact finish_placed hcancelled.worktree hcancelled.runDir _
      · have hkilled := (killGroup_holds _ .term).placed hcancelled
        exact ⟨hkilled.begun, hkilled.worktree, hkilled.runDir⟩

/-- What ended once, and what is placed, has begun if the start has not raised. -/
theorem Placed.begun_iff (hst : Placed env st) (hended : Ended st) :
    Begun env st ↔ st.fault ≠ some .start := by
  have hcount : st.log.countP RunEffect.isDone = 1 ↔ st.finished = true := by
    rw [hended.once]
    cases st.finished with
    | false => exact ⟨(fun h => nomatch h), fun h => nomatch h⟩
    | true => exact ⟨fun _ => rfl, fun _ => rfl⟩
  refine ⟨fun h => h.raised, fun hraised => ⟨hraised, fun hphase => ?_, ?_, ?_⟩⟩
  · rcases hst.begun hphase with hchild | hfinished | hfault
    · exact Or.inl hchild
    · exact Or.inr (hcount.mpr hfinished)
    · exact absurd hfault hraised
  · rw [hcount]
    exact hst.worktree
  · rw [hcount]
    exact hst.runDir

theorem begun_iff (env : RunEnv) (inputs : List RunInput) :
    (∀ pre post, inputs = pre ++ post → Begun env (run env pre)) ↔
      Machine.Along (step env)
        (fun st input => st.fault = none → st.Admits input = true → Spawns env st input)
        (fresh env) inputs := by
  have hfresh : Placed env (fresh env) := ⟨(fun h => nomatch h), (fun h => nomatch h), fun h => nomatch h⟩
  refine Machine.always_iff (J := fun st => Ended st ∧ Placed env st) ?_ ?_ ⟨fresh_ended env, hfresh⟩
    ((hfresh.begun_iff (fresh_ended env)).mpr fun h => nomatch h)
  · rintro st input ⟨hended, hplaced⟩
    refine ⟨ended_step env st input hended, ?_⟩
    unfold step
    split
    · exact hplaced
    · rename_i hcomes
      rw [Bool.or_eq_true, not_or, Bool.not_eq_true, Option.isSome_eq_false_iff,
        Option.isNone_iff_eq_none] at hcomes
      exact handle_placed hplaced hcomes.1 input
  · rintro st input ⟨hended, hplaced⟩ hbegun
    have hnext : Ended (step env st input) := ended_step env st input hended
    unfold step at hnext ⊢
    by_cases hcomes : (st.fault.isSome || !st.Admits input) = true
    · rw [if_pos hcomes]
      refine iff_of_true hbegun fun hfault hadmits => ?_
      rw [hfault, hadmits] at hcomes
      exact absurd hcomes Bool.false_ne_true
    · rw [if_neg hcomes] at hnext ⊢
      rw [Bool.or_eq_true, not_or, Bool.not_eq_true, Bool.not_eq_true, Option.isSome_eq_false_iff,
        Option.isNone_iff_eq_none, Bool.not_eq_false'] at hcomes
      rw [(handle_placed hplaced hcomes.1 input).begun_iff hnext, handle_raises_iff hcomes.1 input]
      exact ⟨fun h _ _ => h, fun h => h hcomes.1 hcomes.2⟩

end ClaudeRun

namespace ResumeRun

variable {env : RunnerEnv} {st st' : ResumeRun}

/-- The same of a resumed session, which only Codex has a directory for. -/
structure Begun (env : RunnerEnv) (st : ResumeRun) : Prop where
  raised : st.fault ≠ some .start
  begun : st.started = true → st.child.isSome = true ∨ st.log.countP RunEffect.isDone = 1
  scratch : st.log.countP RunEffect.isDone = 1 → env.scratchGoes = true → st.scratch = false

/-- Where the start gets to `spawn`, that does not throw. -/
def Spawns (st : ResumeRun) : RunnerInput → Prop
  | .start .throws => st.finished = true ∨ st.cancelled = true
  | _ => True

structure Placed (env : RunnerEnv) (st : ResumeRun) : Prop where
  begun : st.started = true → st.child.isSome = true ∨ st.finished = true ∨ st.fault = some .start
  scratch : st.finished = true → env.scratchGoes = true → st.scratch = false

theorem finish_fault (env : RunnerEnv) (st : ResumeRun) (outcome : EngineOutcome) :
    (st.finish env outcome).fault = st.fault := by
  unfold finish
  split
  · rfl
  · rfl

theorem killGroup_fault (st : ResumeRun) (sig : RunSignal) : (st.killGroup sig).fault = st.fault := by
  unfold killGroup
  split
  · rfl
  · rfl

theorem Goes.not_raised (h : Goes env st st') (hfault : st.fault = none) : st'.fault ≠ some .start := by
  obtain ⟨mid, ⟨effects, -, hsame, -⟩, hends⟩ := h
  have hmid : mid.fault ≠ some .start := by
    rcases hsame with hsame | hsame
    · rw [hsame, hfault]
      exact fun h => nomatch h
    · rw [hsame]
      exact fun h => nomatch h
  rcases hends with rfl | ⟨outcome, rfl⟩
  · exact hmid
  · rw [finish_fault]
    exact hmid

theorem handle_raises_iff (env : RunnerEnv) (hfault : st.fault = none) (input : RunnerInput) :
    (st.handle env input).fault ≠ some .start ↔ Spawns st input := by
  have hstays : ∀ {fault : Option RunFault}, fault = st.fault → fault ≠ some .start := by
    intro fault hsame
    rw [hsame, hfault]
    exact fun h => nomatch h
  cases input with
  | start spawned =>
      unfold handle start
      dsimp only
      split
      · rename_i hfinished
        refine iff_of_true (hstays rfl) ?_
        cases spawned with
        | throws => exact Or.inl hfinished
        | child pid => trivial
      · rename_i hfinished
        split
        · rename_i hcancelled
          refine iff_of_true (hstays (finish_fault env _ _)) ?_
          cases spawned with
          | throws => exact Or.inr hcancelled
          | child pid => trivial
        · rename_i hcancelled
          cases spawned with
          | throws => exact iff_of_false (fun h => h rfl) fun h => h.elim hfinished hcancelled
          | child pid => exact iff_of_true (hstays rfl) trivial
  | stdout chunk =>
      exact iff_of_true (((stdoutData_works env st chunk).goes env).not_raised hfault) trivial
  | stderr chunk =>
      exact iff_of_true (((stderrData_works env st chunk).goes env).not_raised hfault) trivial
  | childError error =>
      exact iff_of_true (((emit_works env .engine st _).ends env _).not_raised hfault) trivial
  | close code signalled =>
      refine iff_of_true ?_ trivial
      unfold handle close
      dsimp only
      exact (maybeFinishClosed_goes env _).not_raised hfault
  | timer n =>
      refine iff_of_true (hstays ?_) trivial
      unfold handle fire
      dsimp only
      split
      · rfl
      · exact killGroup_fault _ _
  | ending => exact iff_of_true (hstays (finish_fault env _ _)) trivial
  | pause => exact iff_of_true (((pause_works st).goes env).not_raised hfault) trivial
  | resume => exact iff_of_true ((resume_goes env st).not_raised hfault) trivial
  | cancel graceMs =>
      refine iff_of_true (hstays ?_) trivial
      unfold handle cancel
      dsimp only
      split
      · rfl
      split
      · rfl
      · exact killGroup_fault _ _

theorem finish_placed (hscratch : st.finished = true → env.scratchGoes = true → st.scratch = false)
    (outcome : EngineOutcome) : Placed env (st.finish env outcome) := by
  unfold finish
  split
  · rename_i hfinished
    exact ⟨fun _ => Or.inr (Or.inl hfinished), hscratch⟩
  · refine ⟨fun _ => Or.inr (Or.inl rfl), fun _ hgoes => ?_⟩
    dsimp only
    rw [hgoes]
    exact Bool.and_false _

theorem Goes.placed (h : Goes env st st') (hst : Placed env st) (hfault : st.fault = none) :
    Placed env st' := by
  obtain ⟨mid, ⟨effects, -, -, hsame⟩, hends⟩ := h
  have hmid : Placed env mid := by
    rw [hsame]
    refine ⟨fun hstarted => ?_, hst.scratch⟩
    rcases hst.begun hstarted with hchild | hfinished | hraised
    · exact Or.inl hchild
    · exact Or.inr (Or.inl hfinished)
    · rw [hfault] at hraised
      exact nomatch hraised
  rcases hends with rfl | ⟨outcome, rfl⟩
  · exact hmid
  · exact finish_placed hmid.scratch outcome

theorem handle_placed (hst : Placed env st) (hfault : st.fault = none) (input : RunnerInput) :
    Placed env (st.handle env input) := by
  have hkilled : ∀ (base : ResumeRun) (sig : RunSignal), Placed env base →
      Placed env (base.killGroup sig) := by
    intro base sig hbase
    unfold killGroup
    split
    · exact ⟨hbase.begun, hbase.scratch⟩
    · exact hbase
  cases input with
  | start spawned =>
      unfold handle start
      dsimp only
      split
      · rename_i hfinished
        exact ⟨fun _ => Or.inr (Or.inl hfinished), hst.scratch⟩
      · rename_i hfinished
        split
        · have hscratch : ({ st with started := true } : ResumeRun).finished = true →
              env.scratchGoes = true → ({ st with started := true } : ResumeRun).scratch = false :=
            hst.scratch
          exact finish_placed hscratch _
        · cases spawned with
          | throws => exact ⟨fun _ => Or.inr (Or.inr rfl), hst.scratch⟩
          | child pid => exact ⟨fun _ => Or.inl rfl, hst.scratch⟩
  | stdout chunk => exact ((stdoutData_works env st chunk).goes env).placed hst hfault
  | stderr chunk => exact ((stderrData_works env st chunk).goes env).placed hst hfault
  | childError error => exact ((emit_works env .engine st _).ends env _).placed hst hfault
  | close code signalled =>
      unfold handle close
      dsimp only
      exact (maybeFinishClosed_goes env _).placed ⟨hst.begun, hst.scratch⟩ hfault
  | timer n =>
      unfold handle fire
      dsimp only
      split
      · exact hst
      · exact hkilled _ _ ⟨hst.begun, hst.scratch⟩
  | ending =>
      have hkept : Placed env { st with ending := false } := ⟨hst.begun, hst.scratch⟩
      exact finish_placed hkept.scratch _
  | pause => exact ((pause_works st).goes env).placed hst hfault
  | resume => exact (resume_goes env st).placed hst hfault
  | cancel graceMs =>
      unfold handle cancel
      dsimp only
      split
      · exact hst
      split
      · exact ⟨hst.begun, hst.scratch⟩
      · have hterm := hkilled { st with cancelled := true } .term ⟨hst.begun, hst.scratch⟩
        exact ⟨hterm.begun, hterm.scratch⟩

theorem Placed.begun_iff (hst : Placed env st) (honce : Once st) :
    Begun env st ↔ st.fault ≠ some .start := by
  have hcount : st.log.countP RunEffect.isDone = 1 ↔ st.finished = true := by
    rw [honce]
    cases st.finished with
    | false => exact ⟨(fun h => nomatch h), fun h => nomatch h⟩
    | true => exact ⟨fun _ => rfl, fun _ => rfl⟩
  refine ⟨fun h => h.raised, fun hraised => ⟨hraised, fun hstarted => ?_, ?_⟩⟩
  · rcases hst.begun hstarted with hchild | hfinished | hfault
    · exact Or.inl hchild
    · exact Or.inr (hcount.mpr hfinished)
    · exact absurd hfault hraised
  · rw [hcount]
    exact hst.scratch

theorem begun_iff (env : RunnerEnv) (inputs : List RunnerInput) :
    (∀ pre post, inputs = pre ++ post → Begun env (run env pre)) ↔
      Machine.Along (step env)
        (fun st input => st.fault = none → st.Admits input = true → Spawns st input)
        (fresh env) inputs := by
  have hfresh : Placed env (fresh env) := ⟨(fun h => nomatch h), fun h => nomatch h⟩
  refine Machine.always_iff (J := fun st => Once st ∧ Placed env st) ?_ ?_ ⟨rfl, hfresh⟩
    ((hfresh.begun_iff rfl).mpr fun h => nomatch h)
  · rintro st input ⟨honce, hplaced⟩
    unfold step
    split
    · exact ⟨honce, hplaced⟩
    · rename_i hcomes
      rw [Bool.or_eq_true, not_or, Bool.not_eq_true, Option.isSome_eq_false_iff,
        Option.isNone_iff_eq_none] at hcomes
      exact ⟨(handle_log env st input).once honce, handle_placed hplaced hcomes.1 input⟩
  · rintro st input ⟨honce, hplaced⟩ hbegun
    unfold step
    by_cases hcomes : (st.fault.isSome || !st.Admits input) = true
    · rw [if_pos hcomes]
      refine iff_of_true hbegun fun hfault hadmits => ?_
      rw [hfault, hadmits] at hcomes
      exact absurd hcomes Bool.false_ne_true
    · rw [if_neg hcomes]
      rw [Bool.or_eq_true, not_or, Bool.not_eq_true, Bool.not_eq_true, Option.isSome_eq_false_iff,
        Option.isNone_iff_eq_none, Bool.not_eq_false'] at hcomes
      have hnext := (handle_log env st input).once honce
      rw [(handle_placed hplaced hcomes.1 input).begun_iff hnext, handle_raises_iff env hcomes.1 input]
      exact ⟨fun h _ _ => h, fun h => h hcomes.1 hcomes.2⟩

end ResumeRun

/-! ### Both -/

end HuginAgent
