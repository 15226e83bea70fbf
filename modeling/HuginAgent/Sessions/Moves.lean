/-
What the manager of sessions does, in small moves.

Whatever comes in, the manager moves turn by turn: an event is passed on, an
acknowledgement is taken, a run is told to stop, a turn is finalized.  `SessionMove` lists
the moves, and every action is some of them one after the other, but for the start of a
turn, which `acceptTurn` does as a whole.  What a move does to its turn is said here once,
and an invariant is proved of the moves.
-/
import HuginAgent.Sessions.ResumeManager
import Mathlib.Logic.Relation

namespace HuginAgent

open SessionResumeManager

variable {env : SessionEnv} {w w' : SessionWorld}

/-! ### A turn goes on -/

/-- The turn once one more event is passed on. -/
def TurnState.counted (env : SessionEnv) (t : TurnState) : TurnState :=
  { t with
    sentSeq := t.sentSeq + 1
    paused := t.paused || atCap env { t with sentSeq := t.sentSeq + 1 } }

/-- The turn once an acknowledgement is taken. -/
def TurnState.acknowledged (env : SessionEnv) (ackSeq : Nat) (t : TurnState) : TurnState :=
  { t with
    ackedSeq := max t.ackedSeq (min ackSeq t.sentSeq)
    paused := t.paused && atCap env { t with ackedSeq := max t.ackedSeq (min ackSeq t.sentSeq) } }

/-- The turn `t` has become `t'`, the same turn of the same run; the manager has sent `msgs`
and called the runs with `calls`. -/
structure Advances (w w' : SessionWorld) (t t' : TurnState) (msgs : List JsObject)
    (calls : List (RunId × SessionCall)) : Prop where
  found : w.getTurn t.turnId = some t
  turns : ∀ id, w'.getTurn id = if id = t.turnId then some t' else w.getTurn id
  key : t'.key = t.key
  run : t'.run = t.run
  draws : w.draws ≤ w'.draws
  frame : w' = { w with
    turns := w'.turns
    draws := w'.draws
    sent := w.sent ++ msgs
    calls := w.calls ++ calls }

theorem SessionWorld.turnId_of_getTurn {id : JsString} {t : TurnState}
    (h : w.getTurn id = some t) : t.turnId = id := Table.key_of_find? h

theorem getTurn_modifyTurn {id : JsString} {t u : TurnState} {f : TurnState → TurnState}
    (hf : ∀ s, (f s).turnId = s.turnId) (ht : w.getTurn id = some t) (hu : f t = u) (k : JsString) :
    (w.modifyTurn id f hf).getTurn k = if k = id then some u else w.getTurn k := by
  show (w.turns.updateKey id f hf).find? k = _
  rw [Table.find?_updateKey]
  split
  · rename_i hk
    rw [hk, show w.turns.find? id = some t from ht, Option.map_some, hu]
  · rfl

theorem getTurn_modifyTurn_twice {id : JsString} {t u v : TurnState} {f g : TurnState → TurnState}
    (hf : ∀ s, (f s).turnId = s.turnId) (hg : ∀ s, (g s).turnId = s.turnId)
    (ht : w.getTurn id = some t) (hu : f t = u) (hv : g u = v) (k : JsString) :
    ((w.modifyTurn id f hf).modifyTurn id g hg).getTurn k =
      if k = id then some v else w.getTurn k := by
  have hfirst := getTurn_modifyTurn hf ht hu
  rw [getTurn_modifyTurn hg (by rw [hfirst, if_pos rfl]) hv, hfirst]
  split
  · rfl
  · rfl

theorem advances_handleRunEvent {t : TurnState} (ht : w.getTurn t.turnId = some t)
    (ev : EngineEvent) :
    Advances w (handleRunEvent env w t.turnId ev) t (t.counted env)
      [sessionEvent t.turnId (t.sentSeq + 1) ev (env.envelope w.draws)]
      (if !t.paused && atCap env { t with sentSeq := t.sentSeq + 1 } then [(t.run, .pause)]
        else []) := by
  unfold handleRunEvent
  simp only [ht]
  split
  · rename_i hcap
    obtain ⟨-, hcap⟩ := (Bool.and_eq_true ..).mp hcap
    refine ⟨ht, getTurn_modifyTurn_twice (by intro _; rfl) (by intro _; rfl) ht (by rfl) ?_, rfl, rfl, Nat.le_succ _, rfl⟩
    simp only [TurnState.counted, hcap, Bool.or_true]
  · rename_i hcap
    refine ⟨ht, getTurn_modifyTurn (by intro _; rfl) ht ?_, rfl, rfl, Nat.le_succ _, ?_⟩
    · cases hpaused : t.paused with
      | true => simp only [TurnState.counted, hpaused, Bool.true_or]
      | false => simpa [TurnState.counted, hpaused] using hcap
    · rw [List.append_nil]
      rfl

theorem advances_handleAck {t : TurnState} (ht : w.getTurn t.turnId = some t) (ackSeq : Nat) :
    Advances w (handleAck env w t.turnId ackSeq) t (t.acknowledged env ackSeq) []
      (if t.paused && !atCap env { t with ackedSeq := max t.ackedSeq (min ackSeq t.sentSeq) }
        then [(t.run, .resume)] else []) := by
  unfold handleAck maybeResume
  simp only [ht]
  by_cases hgo : (t.paused &&
      !atCap env { t with ackedSeq := max t.ackedSeq (min ackSeq t.sentSeq) }) = true
  · obtain ⟨hpaused, hcap⟩ := (Bool.and_eq_true ..).mp hgo
    rw [Bool.not_eq_true'] at hcap
    rw [if_pos hgo, if_neg (by rw [hcap, hpaused]; decide)]
    refine ⟨ht, getTurn_modifyTurn_twice (by intro _; rfl) (by intro _; rfl) ht (by rfl) ?_, rfl, rfl, Nat.le_refl _, ?_⟩
    · simp only [TurnState.acknowledged, hcap, Bool.and_false]
    · rw [List.append_nil]
      rfl
  · have hstay : (!t.paused ||
        atCap env { t with ackedSeq := max t.ackedSeq (min ackSeq t.sentSeq) }) = true := by
      rw [Bool.not_eq_true, Bool.and_eq_false_iff, Bool.not_eq_false'] at hgo
      rwa [Bool.or_eq_true, Bool.not_eq_true']
    rw [if_neg hgo, if_pos hstay]
    refine ⟨ht, getTurn_modifyTurn (by intro _; rfl) ht ?_, rfl, rfl, Nat.le_refl _, ?_⟩
    · cases hpaused : t.paused with
      | false => simp only [TurnState.acknowledged, hpaused, Bool.false_and]
      | true =>
          rcases (Bool.or_eq_true ..).mp hstay with hnot | hcap
          · rw [hpaused] at hnot
            exact absurd hnot Bool.false_ne_true
          · simp only [TurnState.acknowledged, hcap, Bool.and_true]
            rw [hpaused]
    · rw [List.append_nil, List.append_nil]
      rfl

/-! ### A turn ends -/

theorem finalize_of_none {id : JsString} (h : w.getTurn id = none) (status : TurnStatus)
    (finalMessage : JsString) (handle : Option JsString) :
    finalize env w id status finalMessage handle = w := by
  unfold finalize
  rw [h]

theorem finalize_of_some {id : JsString} {t : TurnState} (h : w.getTurn id = some t)
    (status : TurnStatus) (finalMessage : JsString) (handle : Option JsString) :
    finalize env w id status finalMessage handle =
      { w with
        timers := w.timers.filter fun timer => timer.1 ≠ t.timeout
        draws := w.draws + 1
        sent := w.sent ++ [sessionTurnResult id status finalMessage handle (env.envelope w.draws)]
        active := w.active.filter fun key => key ≠ t.key
        turns := w.turns.delete fun s => s.turnId = id } := by
  unfold finalize
  rw [h]
  rfl

theorem getTurn_finalize (id : JsString) (status : TurnStatus) (finalMessage : JsString)
    (handle : Option JsString) (k : JsString) :
    (finalize env w id status finalMessage handle).getTurn k =
      if k = id then none else w.getTurn k := by
  cases h : w.getTurn id with
  | none =>
      rw [finalize_of_none h]
      split
      · rename_i hk
        rw [hk, h]
      · rfl
  | some t =>
      rw [finalize_of_some h]
      show (w.turns.delete _).find? k = _
      rw [w.turns.find?_delete_key (p := fun s => s.turnId = id) (q := fun a => a = id)
        (fun _ => rfl)]
      simp [SessionWorld.getTurn]

/-- All but the turn, its mutex, its timer and its message stay. -/
theorem finalize_frame (id : JsString) (status : TurnStatus) (finalMessage : JsString)
    (handle : Option JsString) :
    finalize env w id status finalMessage handle =
      let w' := finalize env w id status finalMessage handle
      { w with
        timers := w'.timers
        draws := w'.draws
        sent := w'.sent
        active := w'.active
        turns := w'.turns } := by
  cases h : w.getTurn id with
  | none => rw [finalize_of_none h]
  | some t => rw [finalize_of_some h]

/-! ### A turn begins -/

/-- `acceptTurn` up to the call of the runner. -/
def begun (env : SessionEnv) (w : SessionWorld) (req : TurnStart) (target : SessionTarget) :
    SessionWorld :=
  { w with
    active := sessionKey target :: w.active
    draws := w.draws + 2
    sent := w.sent ++ [sessionAccept req.requestId (env.turnId w.draws)
      (planFor env target.engine).fork (planFor env target.engine).mutatesSource
      (env.envelope (w.draws + 1))]
    nextRun := w.nextRun + 1
    calls := w.calls ++ [(w.nextRun, .run ⟨target.engine, target.sessionId, target.cwd,
      req.message, (planFor env target.engine).fork⟩)] }

/-- The turn that is begun. -/
def newTurn (env : SessionEnv) (w : SessionWorld) (target : SessionTarget) : TurnState where
  turnId := env.turnId w.draws
  key := sessionKey target
  target
  run := w.nextRun
  sentSeq := 0
  ackedSeq := 0
  paused := false
  timeout := w.nextTimer

/-- The runner has started a run. -/
def opened (env : SessionEnv) (w : SessionWorld) (req : TurnStart) (target : SessionTarget)
    (registered : Bool) : SessionWorld :=
  { begun env w req target with
    runs := ⟨w.nextRun, env.turnId w.draws, (planFor env target.engine).fork, registered⟩ :: w.runs
    turns := w.turns.replace (newTurn env w target)
    timers := w.timers ++ [(w.nextTimer, env.turnId w.draws)]
    nextTimer := w.nextTimer + 1 }

/-- The runner has thrown, and no turn is on record. -/
def failed (env : SessionEnv) (w : SessionWorld) (req : TurnStart) (target : SessionTarget)
    (message : JsString) : SessionWorld :=
  let w' := begun env w req target
  { w' with
    draws := w'.draws + 1
    sent := w'.sent ++ [sessionTurnResult (env.turnId w.draws) .error message none
      (env.envelope w'.draws)]
    active := w'.active.filter fun key => key ≠ sessionKey target }

theorem getTurn_opened (req : TurnStart) (target : SessionTarget) (registered : Bool)
    (id : JsString) :
    (opened env w req target registered).getTurn id =
      if id = env.turnId w.draws then some (newTurn env w target) else w.getTurn id :=
  Table.find?_replace ..

/-- **How a turn may begin.** -/
theorem acceptTurn_cases (req : TurnStart) (target : SessionTarget) (reply : RunnerReply) :
    (reply = .runs ∧ acceptTurn env w req target reply = opened env w req target true) ∨
      (∃ message, reply = .registerThrows message ∧ acceptTurn env w req target reply =
        finalize env (opened env w req target false) (env.turnId w.draws) .error message none) ∨
      ∃ message, reply = .runThrows message ∧
        ((∃ t, w.getTurn (env.turnId w.draws) = some t ∧ acceptTurn env w req target reply =
          finalize env (begun env w req target) (env.turnId w.draws) .error message none) ∨
        (w.getTurn (env.turnId w.draws) = none ∧
          acceptTurn env w req target reply = failed env w req target message)) := by
  cases reply with
  | runs => exact Or.inl ⟨rfl, rfl⟩
  | registerThrows message => exact Or.inr (Or.inl ⟨message, rfl, rfl⟩)
  | runThrows message =>
      refine Or.inr (Or.inr ⟨message, rfl, ?_⟩)
      cases h : w.getTurn (env.turnId w.draws) with
      | some t =>
          refine Or.inl ⟨t, rfl, ?_⟩
          unfold acceptTurn
          exact if_pos (by
            show (w.getTurn _).isSome = true
            rw [h]
            rfl)
      | none =>
          refine Or.inr ⟨rfl, ?_⟩
          unfold acceptTurn
          exact if_neg (by
            show ¬ (w.getTurn _).isSome = true
            rw [h]
            exact Bool.false_ne_true)

theorem startTurn_cases (req : TurnStart) (target : Option SessionTarget) (reply : RunnerReply) :
    (∃ code message, startTurn env w req target reply =
        w.send env (sessionReject req.requestId code message)) ∨
      ∃ t, target = some t ∧ (planFor env t.engine).runner = true ∧ sessionKey t ∉ w.active ∧
        startTurn env w req target reply = acceptTurn env w req t reply := by
  unfold startTurn
  cases target with
  | none => exact Or.inl ⟨_, _, rfl⟩
  | some t =>
      simp only
      split
      · exact Or.inl ⟨_, _, rfl⟩
      · rename_i hrunner
        split
        · exact Or.inl ⟨_, _, rfl⟩
        · rename_i hfree
          exact Or.inr ⟨t, rfl, by simpa using hrunner, hfree, rfl⟩

theorem startTurn_accepts {target : SessionTarget} (hrunner : (planFor env target.engine).runner = true)
    (hfree : sessionKey target ∉ w.active) (req : TurnStart) (reply : RunnerReply) :
    startTurn env w req (some target) reply = acceptTurn env w req target reply := by
  unfold startTurn
  simp only
  rw [if_neg (by rw [hrunner]; exact Bool.noConfusion), if_neg hfree]

/-! ### Moves -/

/-- One move, on a turn that is there. -/
inductive SessionMove (env : SessionEnv) (w : SessionWorld) : SessionWorld → Prop
  | event {r : StartedRun} {t : TurnState} (hr : r ∈ w.runs) (hreg : r.registered = true)
      (hid : t.turnId = r.turnId) (ht : w.getTurn t.turnId = some t) (ev : EngineEvent) :
      SessionMove env w (handleRunEvent env w t.turnId ev)
  | done {r : StartedRun} (hr : r ∈ w.runs) (hreg : r.registered = true) (result : ResumeDone)
      (forkHandle : JsString) : SessionMove env w (handleRunDone env w r result forkHandle)
  | ack {t : TurnState} (ht : w.getTurn t.turnId = some t) (ackSeq : Nat) :
      SessionMove env w (handleAck env w t.turnId ackSeq)
  | cancel {t : TurnState} (ht : w.getTurn t.turnId = some t) :
      SessionMove env w (w.call t.run (.cancel env.cancelGraceMs))
  | finalize {t : TurnState} (ht : w.getTurn t.turnId = some t) (status : TurnStatus)
      (message : JsString) :
      SessionMove env w (finalize env w t.turnId status message none)
  | expire (id : TimerId) :
      SessionMove env w { w with timers := w.timers.filter fun u => u.1 ≠ id }

/-- Some moves, one after the other. -/
def SessionMoves (env : SessionEnv) : SessionWorld → SessionWorld → Prop :=
  Relation.ReflTransGen (SessionMove env)

theorem SessionMoves.keeps {I : SessionWorld → Prop}
    (hI : ∀ w w' : SessionWorld, SessionMove env w w' → I w → I w') (h : SessionMoves env w w')
    (hw : I w) : I w' := by
  induction h with
  | refl => exact hw
  | tail _ hlast ih => exact hI _ _ hlast ih

theorem moves_callback (run : RunId) (cb : SessionCallback) :
    SessionMoves env w (callback env w run cb) := by
  unfold callback
  split
  · exact .refl
  · rename_i r hfind
    have hr := List.mem_of_find?_eq_some hfind
    have hreg : r.registered = true := by
      have hp := List.find?_some hfind
      exact ((Bool.and_eq_true ..).mp hp).2
    cases cb with
    | done result forkHandle => exact .single (.done hr hreg result forkHandle)
    | event ev =>
        cases ht : w.getTurn r.turnId with
        | none =>
            have hsame : handleRunEvent env w r.turnId ev = w := by
              unfold handleRunEvent
              rw [ht]
            show SessionMoves env w (handleRunEvent env w r.turnId ev)
            rw [hsame]
            exact .refl
        | some t =>
            have hid := SessionWorld.turnId_of_getTurn ht
            show SessionMoves env w (handleRunEvent env w r.turnId ev)
            rw [← hid]
            exact .single (.event hr hreg hid (by rw [hid, ht]) ev)

theorem moves_sync (run : RunId) (sync : List SessionCallback) :
    SessionMoves env w (sync.foldl (fun w cb => callback env w run cb) w) := by
  induction sync generalizing w with
  | nil => exact .refl
  | cons cb rest ih => exact (moves_callback run cb).trans ih

theorem moves_cancelRun {t : TurnState} (ht : w.getTurn t.turnId = some t)
    (sync : List SessionCallback) : SessionMoves env w (cancelRun env w t.run sync) :=
  .head (.cancel ht) (moves_sync t.run sync)

theorem moves_finalize (id : JsString) (status : TurnStatus) (message : JsString) :
    SessionMoves env w (finalize env w id status message none) := by
  cases ht : w.getTurn id with
  | none =>
      rw [finalize_of_none ht]
      exact .refl
  | some t =>
      have hid := SessionWorld.turnId_of_getTurn ht
      rw [← hid]
      exact .single (.finalize (by rw [hid, ht]) status message)

theorem moves_giveUp (id : JsString) (status : TurnStatus) (message : JsString)
    (sync : List SessionCallback) :
    SessionMoves env w (giveUp env w id status message sync) := by
  unfold giveUp
  split
  · exact .refl
  · rename_i t ht
    have hid := SessionWorld.turnId_of_getTurn ht
    exact (moves_cancelRun (by rw [hid, ht]) sync).trans (moves_finalize id status message)

theorem moves_cancelTurns (sync : JsString → List SessionCallback) (ids : List JsString) :
    SessionMoves env w (cancelTurns env sync w ids) := by
  induction ids generalizing w with
  | nil => exact .refl
  | cons id rest ih => exact (moves_giveUp id _ _ _).trans ih

/-- **An action that starts no turn is some moves.** -/
theorem step_moves {act : SessionAction}
    (hact : ∀ req target reply, act ≠ .start req target reply) :
    SessionMoves env w (w.step env act) := by
  cases act with
  | start req target reply => exact absurd rfl (hact req target reply)
  | cancel id =>
      show SessionMoves env w (handleCancel env w id)
      unfold handleCancel
      split
      · exact .refl
      · rename_i t ht
        have hid := SessionWorld.turnId_of_getTurn ht
        exact .single (.cancel (by rw [hid, ht]))
  | ack id ackSeq =>
      show SessionMoves env w (handleAck env w id ackSeq)
      cases ht : w.getTurn id with
      | none =>
          have hsame : handleAck env w id ackSeq = w := by
            unfold handleAck
            rw [ht]
          rw [hsame]
          exact .refl
      | some t =>
          have hid := SessionWorld.turnId_of_getTurn ht
          rw [← hid]
          exact .single (.ack (by rw [hid, ht]) ackSeq)
  | callback run cb => exact moves_callback run cb
  | timeout id sync =>
      show SessionMoves env w (onTimeout env w id sync)
      unfold onTimeout
      split
      · exact .refl
      · exact .head (.expire id) (moves_giveUp _ _ _ _)
  | close sync => exact moves_cancelTurns sync _

/-! ### What no move does -/

/-- No turn and no run has been started on the way from `w` to `w'`, only the runs of turns
have been called, and a run that has ended has no turn left. -/
structure Descends (w w' : SessionWorld) : Prop where
  runs : w'.runs = w.runs
  nextRun : w'.nextRun = w.nextRun
  draws : w.draws ≤ w'.draws
  turns : ∀ (id : JsString) (t' : TurnState), w'.getTurn id = some t' →
    ∃ t, w.getTurn id = some t ∧ t.key = t'.key ∧ t.run = t'.run
  calls : ∀ c ∈ w'.calls, c ∈ w.calls ∨ ∃ id t, w.getTurn id = some t ∧ c.1 = t.run
  ended : ∀ run ∈ w'.ended, run ∈ w.ended ∨
    ∃ r ∈ w.runs, r.id = run ∧ w'.getTurn r.turnId = none

theorem descends_of_advances {t t' : TurnState} {msgs : List JsObject}
    {calls : List (RunId × SessionCall)} (h : Advances w w' t t' msgs calls)
    (hcalls : ∀ c ∈ calls, c.1 = t.run) : Descends w w' where
  runs := by rw [h.frame]
  nextRun := by rw [h.frame]
  draws := h.draws
  turns := by
    intro id s hs
    rw [h.turns] at hs
    split at hs
    · rename_i hid
      obtain rfl := Option.some.inj hs
      exact ⟨t, hid ▸ h.found, h.key.symm, h.run.symm⟩
    · exact ⟨s, hs, rfl, rfl⟩
  calls := by
    intro c hc
    rw [show w'.calls = w.calls ++ calls by rw [h.frame]] at hc
    refine (List.mem_append.mp hc).imp_right ?_
    exact fun hnew => ⟨_, t, h.found, hcalls c hnew⟩
  ended := by
    intro run hrun
    rw [h.frame] at hrun
    exact Or.inl hrun

theorem getTurn_of_finalize {id k : JsString} {status : TurnStatus} {message : JsString}
    {handle : Option JsString} {t : TurnState}
    (h : (finalize env w id status message handle).getTurn k = some t) : w.getTurn k = some t := by
  rw [getTurn_finalize] at h
  split at h
  · exact absurd h nofun
  · exact h

theorem getTurn_of_done {r : StartedRun} {result : ResumeDone} {forkHandle k : JsString}
    {t : TurnState} (h : (handleRunDone env w r result forkHandle).getTurn k = some t) :
    w.getTurn k = some t :=
  getTurn_of_finalize (w := { w with ended := r.id :: w.ended }) h

theorem descends_finalize (id : JsString) (status : TurnStatus) (message : JsString)
    (handle : Option JsString) : Descends w (finalize env w id status message handle) where
  runs := by rw [finalize_frame]
  nextRun := by rw [finalize_frame]
  draws := by
    unfold finalize
    split
    · exact Nat.le_refl _
    · exact Nat.le_succ _
  turns := fun _ t ht => ⟨t, getTurn_of_finalize ht, rfl, rfl⟩
  calls := by
    intro c hc
    rw [finalize_frame] at hc
    exact Or.inl hc
  ended := by
    intro run hrun
    rw [finalize_frame] at hrun
    exact Or.inl hrun

/-- A flow call of a turn is one of its own run. -/
theorem run_of_mem_flow {b : Bool} {c : RunId × SessionCall} {run : RunId} {call : SessionCall}
    (h : c ∈ if b then [(run, call)] else []) : c.1 = run := by
  split at h
  · rw [List.mem_singleton.mp h]
  · exact absurd h List.not_mem_nil

theorem descends_move (h : SessionMove env w w') : Descends w w' := by
  cases h with
  | event _ _ _ ht ev =>
      exact descends_of_advances (advances_handleRunEvent ht ev) fun _ => run_of_mem_flow
  | @done r hr _ result forkHandle =>
      have h := @descends_finalize env { w with ended := r.id :: w.ended } r.turnId
        (statusFromOutcome result.outcome) result.finalMessage (newHandleOf r result forkHandle)
      refine ⟨h.runs, h.nextRun, h.draws, h.turns, h.calls, ?_⟩
      intro run hrun
      have hrun' : run ∈ r.id :: w.ended := by
        unfold handleRunDone at hrun
        rwa [finalize_frame] at hrun
      rcases List.mem_cons.mp hrun' with heq | hold
      · refine Or.inr ⟨r, hr, heq.symm, ?_⟩
        unfold handleRunDone
        rw [getTurn_finalize, if_pos rfl]
      · exact Or.inl hold
  | ack ht ackSeq =>
      exact descends_of_advances (advances_handleAck ht ackSeq) fun _ => run_of_mem_flow
  | @cancel t ht =>
      refine ⟨rfl, rfl, Nat.le_refl _, fun _ s hs => ⟨s, hs, rfl, rfl⟩, ?_, fun _ hrun => Or.inl hrun⟩
      intro c hc
      refine (List.mem_append.mp hc).imp_right ?_
      exact fun hnew => ⟨_, t, ht, congrArg Prod.fst (List.mem_singleton.mp hnew)⟩
  | finalize _ status message => exact descends_finalize ..
  | expire id =>
      exact ⟨rfl, rfl, Nat.le_refl _, fun _ s hs => ⟨s, hs, rfl, rfl⟩, fun _ hc => Or.inl hc,
        fun _ hrun => Or.inl hrun⟩

theorem Descends.getTurn_none (h : Descends w w') {id : JsString} (hid : w.getTurn id = none) :
    w'.getTurn id = none := by
  cases hs : w'.getTurn id with
  | none => rfl
  | some s =>
      obtain ⟨t, ht, -⟩ := h.turns id s hs
      exact absurd (hid.symm.trans ht) nofun

theorem Descends.trans {w₁ : SessionWorld} (h : Descends w w₁) (h' : Descends w₁ w') :
    Descends w w' where
  runs := h'.runs.trans h.runs
  nextRun := h'.nextRun.trans h.nextRun
  draws := Nat.le_trans h.draws h'.draws
  turns := by
    intro id u hu
    obtain ⟨s, hs, hkey, hrun⟩ := h'.turns id u hu
    obtain ⟨t, ht, hkey', hrun'⟩ := h.turns id s hs
    exact ⟨t, ht, hkey'.trans hkey, hrun'.trans hrun⟩
  calls := by
    intro c hc
    rcases h'.calls c hc with hmid | ⟨id, s, hs, hrun⟩
    · exact h.calls c hmid
    · obtain ⟨t, ht, -, hrun'⟩ := h.turns id s hs
      exact Or.inr ⟨id, t, ht, hrun.trans hrun'.symm⟩
  ended := by
    intro run hrun
    rcases h'.ended run hrun with hmid | ⟨r, hr, hid, hnone⟩
    · rcases h.ended run hmid with hold | ⟨r, hr, hid, hnone⟩
      · exact Or.inl hold
      · exact Or.inr ⟨r, hr, hid, h'.getTurn_none hnone⟩
    · rw [h.runs] at hr
      exact Or.inr ⟨r, hr, hid, hnone⟩

theorem descends_moves (h : SessionMoves env w w') : Descends w w' := by
  induction h with
  | refl =>
      exact ⟨rfl, rfl, Nat.le_refl _, fun _ t ht => ⟨t, ht, rfl, rfl⟩, fun _ hc => Or.inl hc,
        fun _ hrun => Or.inl hrun⟩
  | tail _ hlast ih => exact ih.trans (descends_move hlast)

/-- **What every move keeps, and the start of a turn, every action keeps.** -/
theorem step_keeps {I : SessionWorld → Prop}
    (hmove : ∀ w w' : SessionWorld, SessionMove env w w' → I w → I w')
    (hreject : ∀ (w : SessionWorld) (requestId code message : JsString), I w →
      I (w.send env (sessionReject requestId code message)))
    (haccept : ∀ (w : SessionWorld) (req : TurnStart) (t : SessionTarget) (reply : RunnerReply),
      (planFor env t.engine).runner = true → sessionKey t ∉ w.active → I w →
        I (acceptTurn env w req t reply))
    (act : SessionAction) (hw : I w) : I (w.step env act) := by
  by_cases hact : ∃ req target reply, act = .start req target reply
  · obtain ⟨req, target, reply, rfl⟩ := hact
    show I (startTurn env w req target reply)
    rcases @startTurn_cases env w req target reply with
      ⟨code, message, heq⟩ | ⟨t, -, hrunner, hfree, heq⟩
    · rw [heq]
      exact hreject w req.requestId code message hw
    · rw [heq]
      exact haccept w req t reply hrunner hfree hw
  · refine (step_moves fun req target reply h => ?_).keeps hmove hw
    exact hact ⟨req, target, reply, h⟩

end HuginAgent
