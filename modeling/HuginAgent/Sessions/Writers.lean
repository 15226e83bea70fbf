/-
Who writes to a session.

A Codex turn writes to the session it resumes, and the mutex of the manager is there so
that no two do at a time.  But the mutex is the turn's, not the run's: a turn that times
out, or whose connection ends, is finalized as soon as its run has been told to stop, and
the run goes on until its process is gone.  What is shown here is that this is the only
way: while every turn that is given up finds its run reporting its end from within
`cancel`, a run that is not done has its turn open, and the mutex holds for runs too.
-/
import HuginAgent.Sessions.Protocol

namespace HuginAgent

open SessionResumeManager

variable {env : SessionEnv} {w w' : SessionWorld}

/-! ### Runs and their sessions -/

def ResumeSpec.key (spec : ResumeSpec) : JsString :=
  sessionKey ⟨spec.engine, spec.sessionId, spec.cwd⟩

def sessionRun : RunId × SessionCall → Option (RunId × ResumeSpec)
  | (run, .run spec) => some (run, spec)
  | _ => none

/-- The calls of `runner.run`. -/
def sessionRuns (w : SessionWorld) : List (RunId × ResumeSpec) := w.calls.filterMap sessionRun

/-- The run has been started with `spec` and has not reported its end. -/
structure Undone (w : SessionWorld) (run : RunId) (spec : ResumeSpec) : Prop where
  called : (run, spec) ∈ sessionRuns w
  started : ∃ r ∈ w.runs, r.id = run
  running : run ∉ w.ended

/-- No two runs of a session are un-done at a time, and none is when another is started. -/
structure OneWriter (env : SessionEnv) (acts : List SessionAction) : Prop where
  exclusive : ∀ pre post, acts = pre ++ post → ∀ run run' spec spec',
    Undone (SessionWorld.runFrom env pre) run spec →
    Undone (SessionWorld.runFrom env pre) run' spec' → spec.key = spec'.key → run = run'
  earlier_done : ∀ pre req target reply post, acts = pre ++ .start req (some target) reply :: post →
    (planFor env target.engine).runner = true →
    sessionKey target ∉ (SessionWorld.runFrom env pre).active →
    ∀ run spec, Undone (SessionWorld.runFrom env pre) run spec → spec.key ≠ sessionKey target

/-! ### What is called with what -/

theorem sessionRuns_append {calls : List (RunId × SessionCall)} (h : w'.calls = w.calls ++ calls) :
    sessionRuns w' = sessionRuns w ++ calls.filterMap sessionRun := by
  rw [sessionRuns, h, List.filterMap_append, sessionRuns]

theorem sessionRuns_finalize (id : JsString) (status : TurnStatus) (message : JsString)
    (handle : Option JsString) :
    sessionRuns (finalize env w id status message handle) = sessionRuns w := by
  rw [sessionRuns, finalize_frame, sessionRuns]

theorem sessionRuns_move (hmove : SessionMove env w w') : sessionRuns w' = sessionRuns w := by
  cases hmove with
  | event _ _ _ ht ev =>
      rw [sessionRuns_append (w := w) (by rw [(advances_handleRunEvent ht ev).frame])]
      split
      · exact List.append_nil _
      · exact List.append_nil _
  | done _ _ result forkHandle =>
      exact sessionRuns_finalize (w := { w with ended := _ :: w.ended }) _ _ _ _
  | ack ht ackSeq =>
      rw [sessionRuns_append (w := w) (by rw [(advances_handleAck ht ackSeq).frame])]
      split
      · exact List.append_nil _
      · exact List.append_nil _
  | cancel ht => exact (sessionRuns_append (w := w) rfl).trans (List.append_nil _)
  | finalize _ status message => exact sessionRuns_finalize _ _ _ _
  | expire timer => rfl

/-- A run is called for one session; the run of an open turn is called for the turn's, and calls
back. -/
structure Keyed (w : SessionWorld) : Prop where
  call_lt : ∀ c ∈ sessionRuns w, c.1 < w.nextRun
  call_inj : ∀ run spec spec', (run, spec) ∈ sessionRuns w → (run, spec') ∈ sessionRuns w → spec = spec'
  turn_called : ∀ (id : JsString) (t : TurnState), w.getTurn id = some t →
    ∃ spec, (t.run, spec) ∈ sessionRuns w ∧ spec.key = t.key
  registered : ∀ r ∈ w.runs, ∀ t, w.getTurn r.turnId = some t → r.registered = true

theorem keyed_of_descends (h : Keyed w) (hdesc : Descends w w') (hcalls : sessionRuns w' = sessionRuns w) :
    Keyed w' := by
  refine ⟨?_, ?_, ?_, ?_⟩
  · rw [hcalls, hdesc.nextRun]
    exact h.call_lt
  · rw [hcalls]
    exact h.call_inj
  · intro id s hs
    obtain ⟨t, ht, hkey, hrun⟩ := hdesc.turns id s hs
    rw [hcalls, ← hrun, ← hkey]
    exact h.turn_called id t ht
  · rw [hdesc.runs]
    intro r hr s hs
    obtain ⟨t, ht, -⟩ := hdesc.turns _ s hs
    exact h.registered r hr t ht

theorem sessionRuns_begun (req : TurnStart) (target : SessionTarget) :
    sessionRuns (begun env w req target) = sessionRuns w ++ [(w.nextRun,
      ⟨target.engine, target.sessionId, target.cwd, req.message,
        (planFor env target.engine).fork⟩)] :=
  @sessionRuns_append w (begun env w req target) _ rfl

theorem keyed_calls_begun (h : Keyed w) (req : TurnStart) (target : SessionTarget) :
    (∀ c ∈ sessionRuns (begun env w req target), c.1 < w.nextRun + 1) ∧
      ∀ run spec spec', (run, spec) ∈ sessionRuns (begun env w req target) →
        (run, spec') ∈ sessionRuns (begun env w req target) → spec = spec' := by
  rw [sessionRuns_begun]
  have hnew : ∀ {run spec spec'}, (run, spec) ∈ sessionRuns w →
      (run, spec') ∉ [(w.nextRun, (⟨target.engine, target.sessionId, target.cwd, req.message,
        (planFor env target.engine).fork⟩ : ResumeSpec))] := by
    intro run spec spec' hold hnew
    have hrun := congrArg Prod.fst (List.mem_singleton.mp hnew)
    exact Nat.ne_of_lt (h.call_lt (run, spec) hold) hrun
  refine ⟨?_, ?_⟩
  · intro c hc
    rcases List.mem_append.mp hc with hc | hc
    · exact Nat.lt_succ_of_lt (h.call_lt c hc)
    · rw [List.mem_singleton.mp hc]
      exact Nat.lt_succ_self _
  · intro run spec spec' hc hc'
    rcases List.mem_append.mp hc with hc | hc
    · rcases List.mem_append.mp hc' with hc' | hc'
      · exact h.call_inj run spec spec' hc hc'
      · exact absurd hc' (hnew hc)
    · rcases List.mem_append.mp hc' with hc' | hc'
      · exact absurd hc (hnew hc')
      · have heq := (List.mem_singleton.mp hc).trans (List.mem_singleton.mp hc').symm
        exact congrArg Prod.snd heq

theorem turn_called_begun (h : Keyed w) (req : TurnStart) (target : SessionTarget) {id : JsString}
    {t : TurnState} (ht : w.getTurn id = some t) :
    ∃ spec, (t.run, spec) ∈ sessionRuns (begun env w req target) ∧ spec.key = t.key := by
  obtain ⟨spec, hspec, hkey⟩ := h.turn_called id t ht
  refine ⟨spec, ?_, hkey⟩
  rw [sessionRuns_begun]
  exact List.mem_append_left _ hspec

/-! ### Where a run is -/

/-- A run that has not reported its end has its turn open. -/
def Attended (w : SessionWorld) : Prop :=
  ∀ r ∈ w.runs, r.id ∈ w.ended ∨ ∃ t, w.getTurn r.turnId = some t

/-- All that holds while every turn that is given up finds its run reporting its end. -/
structure Writing (env : SessionEnv) (w : SessionWorld) : Prop where
  owned : Owned env w
  log : TurnLog env w
  keyed : Keyed w
  attended : Attended w

/-- **Two runs of a session, neither done, are one: both have the turn that is open.** -/
theorem Writing.exclusive (h : Writing env w) {run run' : RunId} {spec spec' : ResumeSpec}
    (hrun : Undone w run spec) (hrun' : Undone w run' spec') (hkey : spec.key = spec'.key) :
    run = run' := by
  obtain ⟨r, hr, rfl⟩ := hrun.started
  obtain ⟨r', hr', rfl⟩ := hrun'.started
  obtain ⟨t, ht⟩ := (h.attended r hr).resolve_left hrun.running
  obtain ⟨t', ht'⟩ := (h.attended r' hr').resolve_left hrun'.running
  have hturnKey : ∀ {r : StartedRun} {t : TurnState} {spec : ResumeSpec}, r ∈ w.runs →
      w.getTurn r.turnId = some t → (r.id, spec) ∈ sessionRuns w → t.key = spec.key := by
    intro r t spec hr ht hspec
    obtain ⟨u, hu, hukey⟩ := h.keyed.turn_called _ t ht
    rw [h.owned.run_eq hr ht] at hu
    rw [← hukey, h.keyed.call_inj _ u spec hu hspec]
  have hsame := h.log.key_inj _ _ t t' ht ht' (by
    rw [hturnKey hr ht hrun.called, hturnKey hr' ht' hrun'.called, hkey])
  rw [h.owned.turn_inj r hr r' hr' hsame]

/-- When the mutex of a session is free, no run of it is left. -/
theorem Writing.none_left (h : Writing env w) {run : RunId} {spec : ResumeSpec}
    (hrun : Undone w run spec) : spec.key ∈ w.active := by
  obtain ⟨r, hr, rfl⟩ := hrun.started
  obtain ⟨t, ht⟩ := (h.attended r hr).resolve_left hrun.running
  obtain ⟨u, hu, hukey⟩ := h.keyed.turn_called _ t ht
  rw [h.owned.run_eq hr ht] at hu
  rw [h.log.active_iff]
  exact ⟨_, t, ht, by rw [← hukey, h.keyed.call_inj _ u spec hu hrun.called]⟩

/-! ### What keeps it so -/

/-- The run reports its end before `cancel` returns. -/
def Exits (sync : List SessionCallback) : Prop :=
  ∃ result forkHandle, SessionCallback.done result forkHandle ∈ sync

/-- A turn that is given up finds its run reporting its end, and a run takes its callbacks. -/
def GivesUpEnded (env : SessionEnv) (w : SessionWorld) : SessionAction → Prop
  | .start _ (some target) reply =>
      (planFor env target.engine).runner = true → sessionKey target ∉ w.active →
        ∀ message, reply ≠ .registerThrows message
  | .timeout timer sync => ∀ id, (timer, id) ∈ w.timers → (w.getTurn id).isSome = true → Exits sync
  | .close sync => ∀ t ∈ w.turns.rows, Exits (sync t.turnId)
  | .start _ none _ | .cancel _ | .ack .. | .callback .. => True

theorem ended_callback (run : RunId) (cb : SessionCallback) {r : RunId} (hr : r ∈ w.ended) :
    r ∈ (callback env w run cb).ended := by
  unfold callback
  split
  · exact hr
  · rename_i started _
    cases cb with
    | event ev =>
        show r ∈ (handleRunEvent env w started.turnId ev).ended
        cases ht : w.getTurn started.turnId with
        | none =>
            unfold handleRunEvent
            rwa [ht]
        | some t =>
            have hid := SessionWorld.turnId_of_getTurn ht
            rw [← hid] at ht ⊢
            rw [(advances_handleRunEvent ht ev).frame]
            exact hr
    | done result forkHandle =>
        show r ∈ (handleRunDone env w started result forkHandle).ended
        unfold handleRunDone
        rw [finalize_frame]
        exact List.mem_cons_of_mem _ hr

theorem ended_done (ho : Owned env w) {r : StartedRun} (hr : r ∈ w.runs)
    (hreg : r.registered = true) (result : ResumeDone) (forkHandle : JsString) :
    r.id ∈ (callback env w r.id (.done result forkHandle)).ended := by
  have hfind : (w.runs.find? fun s => s.id = r.id && s.registered) = some r := by
    cases hfind : w.runs.find? fun s => s.id = r.id && s.registered with
    | none =>
        have hnot := List.find?_eq_none.mp hfind r hr
        rw [hreg, decide_eq_true rfl] at hnot
        exact absurd rfl hnot
    | some s =>
        have hp := List.find?_some hfind
        simp only [Bool.and_eq_true, decide_eq_true_eq] at hp
        rw [ho.run_inj s (List.mem_of_find?_eq_some hfind) r hr hp.1]
  unfold callback
  rw [hfind]
  show r.id ∈ (handleRunDone env w r result forkHandle).ended
  unfold handleRunDone
  rw [finalize_frame]
  exact List.mem_cons_self

theorem ended_sync {run : RunId} (sync : List SessionCallback) {r : RunId} (hr : r ∈ w.ended) :
    r ∈ (sync.foldl (fun w cb => callback env w run cb) w).ended := by
  induction sync generalizing w with
  | nil => exact hr
  | cons cb rest ih => exact ih (ended_callback run cb hr)

/-- A run that exits has reported its end when `cancel` returns. -/
theorem ended_exits (ho : Owned env w) {r : StartedRun} (hr : r ∈ w.runs)
    (hreg : r.registered = true) {sync : List SessionCallback} (hexits : Exits sync) :
    r.id ∈ (sync.foldl (fun w cb => callback env w r.id cb) w).ended := by
  obtain ⟨result, forkHandle, hmem⟩ := hexits
  induction sync generalizing w with
  | nil => exact absurd hmem List.not_mem_nil
  | cons cb rest ih =>
      rcases List.mem_cons.mp hmem with rfl | hmem
      · exact ended_sync rest (ended_done ho hr hreg result forkHandle)
      · have hdesc := descends_moves (@moves_callback env w r.id cb)
        exact ih (owned_of_descends ho hdesc) (by rw [hdesc.runs]; exact hr) hmem

theorem attended_of_advances {t t' : TurnState} {msgs : List JsObject}
    {calls : List (RunId × SessionCall)} (h : Attended w) (hadv : Advances w w' t t' msgs calls) :
    Attended w' := by
  intro r hr
  rw [hadv.frame] at hr
  rcases h r hr with hended | ⟨s, hs⟩
  · refine Or.inl ?_
    rw [hadv.frame]
    exact hended
  · refine Or.inr ?_
    rw [hadv.turns]
    split
    · exact ⟨t', rfl⟩
    · exact ⟨s, hs⟩

/-- Closing a turn whose runs have ended. -/
theorem attended_finalize (h : Attended w) {id : JsString}
    (hended : ∀ r ∈ w.runs, r.turnId = id → r.id ∈ w.ended) (status : TurnStatus)
    (message : JsString) (handle : Option JsString) :
    Attended (finalize env w id status message handle) := by
  intro r hr
  rw [finalize_frame] at hr
  rw [getTurn_finalize]
  by_cases hid : r.turnId = id
  · refine Or.inl ?_
    rw [finalize_frame]
    exact hended r hr hid
  · rw [if_neg hid, finalize_frame]
    exact h r hr

theorem writing_of_moves (h : Writing env w) (hmoves : SessionMoves env w w')
    (hatt : Attended w') : Writing env w' := by
  have hdesc := descends_moves hmoves
  have hcalls : sessionRuns w' = sessionRuns w := hmoves.keeps (I := fun w' => sessionRuns w' = sessionRuns w)
    (fun _ _ hmove h => (sessionRuns_move hmove).trans h) rfl
  exact ⟨owned_of_descends h.owned hdesc,
    hmoves.keeps (I := TurnLog env) (fun _ _ hmove h => turnLog_move h hmove) h.log,
    keyed_of_descends h.keyed hdesc hcalls, hatt⟩

theorem attended_callback (ho : Owned env w) (h : Attended w) (run : RunId)
    (cb : SessionCallback) : Attended (callback env w run cb) := by
  unfold callback
  split
  · exact h
  · rename_i r hfind
    have hr := List.mem_of_find?_eq_some hfind
    cases cb with
    | event ev =>
        show Attended (handleRunEvent env w r.turnId ev)
        cases ht : w.getTurn r.turnId with
        | none =>
            unfold handleRunEvent
            rwa [ht]
        | some t =>
            have hid := SessionWorld.turnId_of_getTurn ht
            rw [← hid] at ht ⊢
            exact attended_of_advances h (advances_handleRunEvent ht ev)
    | done result forkHandle =>
        have hended : Attended { w with ended := r.id :: w.ended } :=
          fun s hs => (h s hs).imp_left (List.mem_cons_of_mem _)
        refine attended_finalize hended ?_ _ _ _
        intro s hs hturn
        rw [ho.turn_inj s hs r hr hturn]
        exact List.mem_cons_self

theorem writing_callback (h : Writing env w) (run : RunId) (cb : SessionCallback) :
    Writing env (callback env w run cb) :=
  writing_of_moves h (moves_callback run cb) (attended_callback h.owned h.attended run cb)

theorem writing_sync (h : Writing env w) (run : RunId) (sync : List SessionCallback) :
    Writing env (sync.foldl (fun w cb => callback env w run cb) w) := by
  induction sync generalizing w with
  | nil => exact h
  | cons cb rest ih => exact ih (writing_callback h run cb)

/-- **A turn is given up without leaving its run behind.** -/
theorem writing_giveUp (h : Writing env w) {id : JsString} (status : TurnStatus)
    (message : JsString) (sync : List SessionCallback)
    (hexits : (w.getTurn id).isSome = true → Exits sync) :
    Writing env (giveUp env w id status message sync) := by
  refine writing_of_moves h (moves_giveUp id status message sync) ?_
  unfold giveUp
  cases ht : w.getTurn id with
  | none => exact h.attended
  | some t =>
      rw [ht] at hexits
      have hid := SessionWorld.turnId_of_getTurn ht
      have hcalled : Writing env (w.call t.run (.cancel env.cancelGraceMs)) :=
        writing_of_moves h (.single (.cancel (by rw [hid, ht]))) h.attended
      have hsync := writing_sync hcalled t.run sync
      refine attended_finalize hsync.attended ?_ _ _ _
      intro r hr hturn
      have hruns := (descends_moves (@moves_sync env
        (w.call t.run (.cancel env.cancelGraceMs)) t.run sync)).runs
      rw [hruns] at hr
      have hopen : w.getTurn r.turnId = some t := by rw [hturn, ht]
      have hrun := h.owned.run_eq hr hopen
      have hended := ended_exits hcalled.owned hr (h.keyed.registered r hr t hopen) (hexits rfl)
      rw [← hrun] at hended ⊢
      exact hended

theorem writing_cancelTurns (h : Writing env w) (sync : JsString → List SessionCallback)
    {ids : List JsString} (hexits : ∀ id, (w.getTurn id).isSome = true → Exits (sync id)) :
    Writing env (cancelTurns env sync w ids) := by
  induction ids generalizing w with
  | nil => exact h
  | cons id rest ih =>
      refine ih (writing_giveUp h _ _ _ (hexits id)) ?_
      intro k hk
      obtain ⟨s, hs⟩ := Option.isSome_iff_exists.mp hk
      obtain ⟨t, ht, -⟩ := (descends_moves (moves_giveUp id _ _ _)).turns k s hs
      exact hexits k (by rw [ht]; rfl)

theorem keyed_start : Keyed SessionWorld.start where
  call_lt := fun _ hc => nomatch hc
  call_inj := fun _ _ _ hc => nomatch hc
  turn_called := fun _ _ ht => nomatch ht
  registered := fun _ hr => nomatch hr

theorem keyed_failed (h : Keyed w) (req : TurnStart) (target : SessionTarget)
    (message : JsString) : Keyed (failed env w req target message) := by
  obtain ⟨hlt, hcall⟩ := @keyed_calls_begun env w h req target
  exact ⟨hlt, hcall, fun _ _ ht => turn_called_begun h req target ht, h.registered⟩

section Fresh

variable (hinj : Function.Injective env.turnId)
include hinj

/-- The state in which a run is there, registered or not. -/
theorem keyed_opened (ho : Owned env w) (h : Keyed w) (req : TurnStart) (target : SessionTarget) :
    Keyed (opened env w req target true) := by
  obtain ⟨hlt, hcall⟩ := @keyed_calls_begun env w h req target
  refine ⟨hlt, hcall, ?_, ?_⟩
  · intro id t ht
    rw [getTurn_opened] at ht
    split at ht
    · obtain rfl := Option.some.inj ht
      refine ⟨⟨target.engine, target.sessionId, target.cwd, req.message,
        (planFor env target.engine).fork⟩, ?_, rfl⟩
      show _ ∈ sessionRuns (begun env w req target)
      rw [sessionRuns_begun]
      exact List.mem_append_right _ (List.mem_singleton_self _)
    · exact turn_called_begun h req target ht
  · intro r hr t ht
    rcases List.mem_cons.mp hr with rfl | hr
    · rfl
    · rw [getTurn_opened, if_neg (ho.fresh_run hinj hr)] at ht
      exact h.registered r hr t ht

theorem writing_acceptTurn (h : Writing env w) (req : TurnStart) (target : SessionTarget)
    {reply : RunnerReply} (hfree : sessionKey target ∉ w.active)
    (hreply : ∀ message, reply ≠ .registerThrows message) :
    Writing env (acceptTurn env w req target reply) := by
  have howned := owned_acceptTurn hinj h.owned req target reply
  have hlog := turnLog_acceptTurn hinj h.owned h.log req target reply hfree
  rcases acceptTurn_fresh hinj h.owned req target reply with
    ⟨-, heq⟩ | ⟨message, hthrows, -⟩ | ⟨message, -, heq⟩
  · rw [heq] at howned hlog ⊢
    refine ⟨howned, hlog, keyed_opened hinj h.owned h.keyed req target, ?_⟩
    intro r hr
    rcases List.mem_cons.mp hr with rfl | hr
    · exact Or.inr ⟨newTurn env w target, by rw [getTurn_opened, if_pos rfl]⟩
    · rw [getTurn_opened, if_neg (h.owned.fresh_run hinj hr)]
      exact h.attended r hr
  · exact absurd hthrows (hreply message)
  · rw [heq] at howned hlog ⊢
    exact ⟨howned, hlog, keyed_failed h.keyed req target message, h.attended⟩

theorem writing_step (h : Writing env w) (act : SessionAction) (hact : GivesUpEnded env w act) :
    Writing env (w.step env act) := by
  cases act with
  | start req target reply =>
      show Writing env (startTurn env w req target reply)
      rcases @startTurn_cases env w req target reply with
        ⟨code, message, heq⟩ | ⟨t, rfl, hrunner, hfree, heq⟩
      · rw [heq]
        refine ⟨owned_send h.owned _, turnLog_reject h.log .., ?_, h.attended⟩
        exact ⟨h.keyed.call_lt, h.keyed.call_inj, h.keyed.turn_called, h.keyed.registered⟩
      · rw [heq]
        exact writing_acceptTurn hinj h req t hfree (hact hrunner hfree)
  | cancel id =>
      refine writing_of_moves h (step_moves nofun) ?_
      show Attended (handleCancel env w id)
      unfold handleCancel
      split
      · exact h.attended
      · exact h.attended
  | ack id ackSeq =>
      refine writing_of_moves h (step_moves nofun) ?_
      show Attended (handleAck env w id ackSeq)
      cases ht : w.getTurn id with
      | none =>
          unfold handleAck
          rw [ht]
          exact h.attended
      | some t =>
          have hid := SessionWorld.turnId_of_getTurn ht
          rw [← hid] at ht ⊢
          exact attended_of_advances h.attended (advances_handleAck ht ackSeq)
  | callback run cb => exact writing_callback h run cb
  | timeout timer sync =>
      show Writing env (onTimeout env w timer sync)
      unfold onTimeout
      split
      · exact h
      · rename_i found hfind
        have hmem := List.mem_of_find?_eq_some hfind
        have htimer : found.1 = timer := by simpa using List.find?_some hfind
        have hexpired : Writing env { w with timers := w.timers.filter fun u => u.1 ≠ timer } :=
          writing_of_moves h (.single (.expire timer)) h.attended
        refine writing_giveUp hexpired _ _ _ ?_
        exact hact found.2 (htimer ▸ hmem)
  | close sync =>
      refine writing_cancelTurns h sync ?_
      intro id hopen
      obtain ⟨t, ht⟩ := Option.isSome_iff_exists.mp hopen
      obtain ⟨hmem, hid⟩ := Table.find?_eq_some.mp ht
      exact hid ▸ hact t hmem

theorem writing_run {acts : List SessionAction}
    (h : Machine.Along (SessionWorld.step env) (GivesUpEnded env) SessionWorld.start acts) :
    Writing env (SessionWorld.runFrom env acts) := by
  refine Machine.run_invariant (SessionWorld.step env) (I := Writing env)
    (fun _ act h hact => writing_step hinj h act hact) ?_ h
  exact ⟨ownedRuns_start, turnLog_start, keyed_start, fun _ hr => nomatch hr⟩

end Fresh

/-! ### One writer -/

/-- **While every turn that is given up finds its run reporting its end, a session has one
writer.** -/
theorem one_writer (env : SessionEnv) (hinj : Function.Injective env.turnId)
    (acts : List SessionAction)
    (h : Machine.Along (SessionWorld.step env) (GivesUpEnded env) SessionWorld.start acts) :
    OneWriter env acts := by
  have hwriting : ∀ pre post, acts = pre ++ post → Writing env (SessionWorld.runFrom env pre) := by
    rintro pre post rfl
    exact writing_run hinj (Machine.along_append.mp h).1
  refine ⟨?_, ?_⟩
  · intro pre post hacts run run' spec spec' hrun hrun' hkey
    exact (hwriting pre post hacts).exclusive hrun hrun' hkey
  · intro pre req target reply post hacts _ hfree run spec hrun hkey
    exact hfree (hkey ▸ (hwriting pre _ hacts).none_left hrun)

/-- A process that is gone before `cancel` returns. -/
def sampleExit : SessionCallback := .done ⟨.cancelled, [], none⟩ []

theorem one_writer_sample : OneWriter (sampleSessions 2)
    [sampleStart "a" .codex, .timeout 0 [sampleExit], sampleStart "b" .codex] := by
  refine one_writer _ (sampleSessions_injective 2) _ ⟨?_, ?_, ?_, trivial⟩
  · intro _ _ message
    exact RunnerReply.noConfusion
  · intro id _ _
    exact ⟨_, _, List.mem_singleton_self _⟩
  · intro _ _ message
    exact RunnerReply.noConfusion

/-- A turn that times out while its process has its grace period, and the next turn of the
session. -/
def sampleGrace : List SessionAction :=
  [sampleStart "a" .codex, .timeout 0 [], sampleStart "b" .codex]

theorem two_writers : ¬ ∀ env acts, Function.Injective env.turnId → OneWriter env acts := by
  intro hall
  have h := hall (sampleSessions 2) sampleGrace (sampleSessions_injective 2)
  have hfirst : Undone (SessionWorld.runFrom (sampleSessions 2) sampleGrace) 0
      ⟨.codex, js "s", js "/repo", js "go", false⟩ :=
    ⟨by decide +kernel, by decide +kernel, by decide +kernel⟩
  have hsecond : Undone (SessionWorld.runFrom (sampleSessions 2) sampleGrace) 1
      ⟨.codex, js "s", js "/repo", js "go", false⟩ :=
    ⟨by decide +kernel, by decide +kernel, by decide +kernel⟩
  have hsame := h.exclusive sampleGrace [] (List.append_nil _).symm 0 1 _ _ hfirst hsecond rfl
  exact absurd hsame Nat.zero_ne_one

end HuginAgent
