/-
Flow control of a turn.

A turn is a credit window: the events it has passed on and not had acknowledged are held
below the cap by pausing its run.  The model of a window is `Window`, and what a turn
says and what its run has been called with are read off one: `Flow` is that reading, and
every move of the manager is a move of the window.
-/
import HuginAgent.Kit.Window
import HuginAgent.Sessions.Runs

namespace HuginAgent

open SessionResumeManager

variable {env : SessionEnv} {w w' : SessionWorld}

/-! ### Turns as windows -/

def SessionCall.isFlow : SessionCall → Bool
  | .pause | .resume => true
  | .run _ | .cancel _ => false

/-- The calls of `pause` and `resume` on a run, in order. -/
def flowCalls (w : SessionWorld) (run : RunId) : List SessionCall :=
  (w.calls.filter fun c => c.1 = run && c.2.isFlow).map Prod.snd

/-- The turn shows what the window holds. -/
structure TurnState.Shows {cap : Nat} (t : TurnState) (win : Window cap) : Prop where
  sent : t.sentSeq = win.sent
  acked : t.ackedSeq = win.acked
  paused : t.paused = win.stopped

def windowCalls {cap : Nat} (win : Window cap) : List SessionCall :=
  alternation .pause .resume win.switches

/-- Behind every run there is a window: its flow calls are the switches, and the turn of the
run, while there is one, shows the rest. -/
def Flow (env : SessionEnv) (w : SessionWorld) : Prop :=
  ∀ run, ∃ win : Window env.maxUnackedEvents, flowCalls w run = windowCalls win ∧
    ∀ id t, w.getTurn id = some t → t.run = run → t.Shows win

theorem windowCalls_emit {t : TurnState} {win : Window env.maxUnackedEvents} (h : t.Shows win) :
    (t.counted env).Shows win.emit ∧ windowCalls win.emit = windowCalls win ++
      if !t.paused && atCap env { t with sentSeq := t.sentSeq + 1 } then [.pause] else [] := by
  have hcap : atCap env { t with sentSeq := t.sentSeq + 1 } =
      decide (win.acked + env.maxUnackedEvents ≤ win.sent + 1) := by
    rw [atCap, h.sent, h.acked]
  refine ⟨⟨congrArg (· + 1) h.sent, h.acked, ?_⟩, ?_⟩
  · show (t.paused || atCap env { t with sentSeq := t.sentSeq + 1 }) = _
    rw [hcap, h.paused, win.stopped_eq, Window.stopped_eq]
    show _ = decide (win.acked + env.maxUnackedEvents ≤ win.sent + 1)
    rw [← Bool.decide_or]
    exact decide_eq_decide.mpr (by omega)
  · rw [windowCalls, Window.switches_emit, hcap, h.paused]
    split
    · rename_i hgo
      have hodd : ¬ win.switches % 2 = 1 := by
        simpa [Window.stopped] using ((Bool.and_eq_true ..).mp hgo).1
      rw [alternation, if_pos (by omega)]
      rfl
    · exact (List.append_nil _).symm

theorem windowCalls_ack {t : TurnState} {win : Window env.maxUnackedEvents} (h : t.Shows win)
    (ackSeq : Nat) :
    (t.acknowledged env ackSeq).Shows (win.ack ackSeq) ∧
      windowCalls (win.ack ackSeq) = windowCalls win ++
        if t.paused && !atCap env { t with ackedSeq := max t.ackedSeq (min ackSeq t.sentSeq) }
          then [.resume] else [] := by
  have hacked : max t.ackedSeq (min ackSeq t.sentSeq) = (win.ack ackSeq).acked := by
    rw [h.sent, h.acked]
    rfl
  have hcap : atCap env { t with ackedSeq := max t.ackedSeq (min ackSeq t.sentSeq) } =
      decide (max win.acked (min ackSeq win.sent) + env.maxUnackedEvents ≤ win.sent) := by
    rw [atCap, h.sent, h.acked]
  have hle := win.acked_le_ack ackSeq
  refine ⟨⟨h.sent, hacked, ?_⟩, ?_⟩
  · show (t.paused && atCap env _) = _
    rw [hcap, h.paused, win.stopped_eq, Window.stopped_eq, ← Bool.decide_and]
    show _ = decide (max win.acked (min ackSeq win.sent) + env.maxUnackedEvents ≤ win.sent)
    exact decide_eq_decide.mpr (by omega)
  · rw [windowCalls, Window.switches_ack, hcap, h.paused]
    split
    · rename_i hgo
      have hodd : win.switches % 2 = 1 := by
        simpa [Window.stopped] using ((Bool.and_eq_true ..).mp hgo).1
      rw [alternation, if_neg (by omega)]
      rfl
    · exact (List.append_nil _).symm

theorem flow_of_shrinks (h : Flow env w) (hcalls : ∀ run, flowCalls w' run = flowCalls w run)
    (hturns : ∀ id t, w'.getTurn id = some t → w.getTurn id = some t) : Flow env w' := by
  intro run
  obtain ⟨win, hwin, hshows⟩ := h run
  exact ⟨win, (hcalls run).trans hwin, fun id t ht => hshows id t (hturns id t ht)⟩

theorem flowCalls_append {calls : List (RunId × SessionCall)}
    (h : w'.calls = w.calls ++ calls) (run : RunId) :
    flowCalls w' run =
      flowCalls w run ++ (calls.filter fun c => c.1 = run && c.2.isFlow).map Prod.snd := by
  rw [flowCalls, h, List.filter_append, List.map_append, flowCalls]

theorem flow_of_advances {t t' : TurnState} {msgs : List JsObject} {b : Bool} {call : SessionCall}
    (hn : Numbered w) (h : Flow env w)
    (hadv : Advances w w' t t' msgs (if b then [(t.run, call)] else [])) (hcall : call.isFlow = true)
    (hwin : ∀ win : Window env.maxUnackedEvents, t.Shows win →
      ∃ win' : Window env.maxUnackedEvents, t'.Shows win' ∧
      windowCalls win' = windowCalls win ++ if b then [call] else []) : Flow env w' := by
  have hcalls := @flowCalls_append w w' _ (by rw [hadv.frame])
  intro run
  obtain ⟨win, hlog, hshows⟩ := h run
  by_cases hrun : t.run = run
  · obtain ⟨win', hshow', hlog'⟩ := hwin win (hshows _ t hadv.found hrun)
    refine ⟨win', ?_, ?_⟩
    · rw [hcalls, hlog, hlog', hrun]
      cases b with
      | true => simp [hcall]
      | false => rfl
    · intro id s hs hsrun
      rw [hadv.turns] at hs
      split at hs
      · exact Option.some.inj hs ▸ hshow'
      · rename_i hid
        -- No other turn has this run.
        exact absurd (hn.run_inj _ _ _ _ hs hadv.found (hsrun.trans hrun.symm)) hid
  · refine ⟨win, ?_, ?_⟩
    · rw [hcalls, hlog]
      cases b with
      | true => simp [hrun]
      | false => exact List.append_nil _
    · intro id s hs hsrun
      rw [hadv.turns] at hs
      split at hs
      · obtain rfl := Option.some.inj hs
        exact absurd (hadv.run.symm.trans hsrun) hrun
      · exact hshows id s hs hsrun

theorem flow_finalize (h : Flow env w) (id : JsString) (status : TurnStatus) (message : JsString)
    (handle : Option JsString) : Flow env (finalize env w id status message handle) := by
  refine flow_of_shrinks h ?_ (fun _ _ => getTurn_of_finalize)
  intro run
  rw [flowCalls, finalize_frame, flowCalls]

theorem flow_move (hn : Numbered w) (h : Flow env w) (hmove : SessionMove env w w') :
    Flow env w' := by
  cases hmove with
  | event _ _ _ ht ev =>
      refine flow_of_advances hn h (advances_handleRunEvent ht ev) rfl ?_
      exact fun win hshow => ⟨win.emit, windowCalls_emit hshow⟩
  | done _ _ result forkHandle => exact flow_finalize (w := { w with ended := _ :: w.ended }) h _ _ _ _
  | ack ht ackSeq =>
      refine flow_of_advances hn h (advances_handleAck ht ackSeq) rfl ?_
      exact fun win hshow => ⟨win.ack ackSeq, windowCalls_ack hshow ackSeq⟩
  | cancel ht =>
      refine flow_of_shrinks h ?_ (fun _ _ hs => hs)
      intro run
      rw [flowCalls_append rfl]
      simp [SessionCall.isFlow]
  | finalize _ status message => exact flow_finalize h _ _ _ _
  | expire id => exact h

theorem flowCalls_begun (req : TurnStart) (target : SessionTarget) (run : RunId) :
    flowCalls (begun env w req target) run = flowCalls w run := by
  rw [flowCalls_append rfl]
  simp [SessionCall.isFlow]

/-- A turn begins with an empty window, for its run has not been called before. -/
theorem flow_opened (hcap : 0 < env.maxUnackedEvents) (hn : Numbered w) (h : Flow env w)
    (req : TurnStart) (target : SessionTarget) (registered : Bool) :
    Flow env (opened env w req target registered) := by
  have hcalls : ∀ run, flowCalls (opened env w req target registered) run = flowCalls w run :=
    flowCalls_begun req target
  intro run
  by_cases hrun : run = w.nextRun
  · refine ⟨Window.start hcap, ?_, ?_⟩
    · have hnone : flowCalls w run = [] := by
        rw [flowCalls, List.map_eq_nil_iff, List.filter_eq_nil_iff]
        intro c hc
        have hlt := hn.call_lt c hc
        simp [hrun, Nat.ne_of_lt hlt]
      rw [hcalls, hnone]
      rfl
    · intro id s hs hsrun
      rw [getTurn_opened] at hs
      split at hs
      · obtain rfl := Option.some.inj hs
        exact ⟨rfl, rfl, rfl⟩
      · exact absurd (hsrun.trans hrun) (Nat.ne_of_lt (hn.run_lt id s hs))
  · obtain ⟨win, hlog, hshows⟩ := h run
    refine ⟨win, (hcalls run).trans hlog, ?_⟩
    intro id s hs hsrun
    rw [getTurn_opened] at hs
    split at hs
    · obtain rfl := Option.some.inj hs
      exact absurd hsrun.symm hrun
    · exact hshows id s hs hsrun

theorem flow_acceptTurn (hcap : 0 < env.maxUnackedEvents) (hn : Numbered w) (h : Flow env w)
    (req : TurnStart) (target : SessionTarget) (reply : RunnerReply) :
    Flow env (acceptTurn env w req target reply) := by
  have hbegun : Flow env (begun env w req target) :=
    flow_of_shrinks h (flowCalls_begun req target) (fun _ _ hs => hs)
  rcases @acceptTurn_cases env w req target reply with
    ⟨-, heq⟩ | ⟨message, -, heq⟩ | ⟨message, -, ⟨s, -, heq⟩ | ⟨-, heq⟩⟩
  · rw [heq]
    exact flow_opened hcap hn h req target true
  · rw [heq]
    exact flow_finalize (flow_opened hcap hn h req target false) _ _ _ _
  · rw [heq]
    exact flow_finalize hbegun _ _ _ _
  · rw [heq]
    exact hbegun

theorem flow_step (hcap : 0 < env.maxUnackedEvents) (h : Numbered w ∧ Flow env w)
    (act : SessionAction) : Numbered (w.step env act) ∧ Flow env (w.step env act) := by
  refine step_keeps (I := fun w => Numbered w ∧ Flow env w) ?_ ?_ ?_ act h
  · intro w w' hmove h
    exact ⟨numbered_of_descends h.1 (descends_move hmove), flow_move h.1 h.2 hmove⟩
  · intro w requestId code message h
    exact ⟨⟨h.1.run_lt, h.1.run_inj, h.1.call_lt⟩, h.2⟩
  · intro w req t reply _ _ h
    exact ⟨numbered_acceptTurn h.1 req t reply, flow_acceptTurn hcap h.1 h.2 req t reply⟩

/-- **The manager keeps every turn a window.** -/
theorem flow_run (hcap : 0 < env.maxUnackedEvents) (acts : List SessionAction) :
    Numbered (SessionWorld.runFrom env acts) ∧ Flow env (SessionWorld.runFrom env acts) := by
  refine Machine.run_invariant_all (SessionWorld.step env)
    (I := fun w => Numbered w ∧ Flow env w) (fun _ act h => flow_step hcap h act)
    ⟨numbered_start, ?_⟩ acts
  intro run
  exact ⟨Window.start hcap, rfl, fun _ _ ht => nomatch ht⟩

theorem Flow.window (h : Flow env w) {t : TurnState} (ht : t ∈ w.turns.rows) :
    ∃ win : Window env.maxUnackedEvents, flowCalls w t.run = windowCalls win ∧ t.Shows win := by
  obtain ⟨win, hcalls, hshows⟩ := h t.run
  exact ⟨win, hcalls, hshows _ t (Table.find?_eq_some.mpr ⟨ht, rfl⟩) rfl⟩

/-! ### What has been acknowledged stays so -/

/-- The turn of the run, if there is one, has this much acknowledged. -/
def AckedAtLeast (run : RunId) (n : Nat) (w : SessionWorld) : Prop :=
  run < w.nextRun ∧ ∀ id t, w.getTurn id = some t → t.run = run → n ≤ t.ackedSeq

theorem ackedAtLeast_of_shrinks {run : RunId} {n : Nat} (h : AckedAtLeast run n w)
    (hnext : w.nextRun ≤ w'.nextRun)
    (hturns : ∀ id t, w'.getTurn id = some t → w.getTurn id = some t) : AckedAtLeast run n w' :=
  ⟨Nat.lt_of_lt_of_le h.1 hnext, fun id t ht => h.2 id t (hturns id t ht)⟩

theorem ackedAtLeast_of_advances {run : RunId} {n : Nat} {t t' : TurnState} {msgs : List JsObject}
    {calls : List (RunId × SessionCall)} (h : AckedAtLeast run n w)
    (hadv : Advances w w' t t' msgs calls) (hacked : t.ackedSeq ≤ t'.ackedSeq) :
    AckedAtLeast run n w' := by
  refine ⟨by rw [hadv.frame]; exact h.1, ?_⟩
  intro id s hs hrun
  rw [hadv.turns] at hs
  split at hs
  · obtain rfl := Option.some.inj hs
    exact Nat.le_trans (h.2 _ t hadv.found (hadv.run ▸ hrun)) hacked
  · exact h.2 id s hs hrun

theorem ackedAtLeast_finalize {run : RunId} {n : Nat} (h : AckedAtLeast run n w) (id : JsString)
    (status : TurnStatus) (message : JsString) (handle : Option JsString) :
    AckedAtLeast run n (finalize env w id status message handle) :=
  ackedAtLeast_of_shrinks h (Nat.le_of_eq (descends_finalize ..).nextRun.symm)
    fun _ _ => getTurn_of_finalize

theorem ackedAtLeast_opened {run : RunId} {n : Nat} (h : AckedAtLeast run n w) (req : TurnStart)
    (target : SessionTarget) (registered : Bool) :
    AckedAtLeast run n (opened env w req target registered) := by
  refine ⟨Nat.lt_succ_of_lt h.1, ?_⟩
  intro id t ht hrun
  rw [getTurn_opened] at ht
  split at ht
  · obtain rfl := Option.some.inj ht
    exact absurd hrun.symm (Nat.ne_of_lt h.1)
  · exact h.2 id t ht hrun

theorem ackedAtLeast_step {run : RunId} {n : Nat} (h : AckedAtLeast run n w)
    (act : SessionAction) : AckedAtLeast run n (w.step env act) := by
  refine step_keeps (I := AckedAtLeast run n) ?_ ?_ ?_ act h
  · intro w w' hmove h
    cases hmove with
    | event _ _ _ ht ev =>
        exact ackedAtLeast_of_advances h (advances_handleRunEvent ht ev) (Nat.le_refl _)
    | done _ _ result forkHandle =>
        exact ackedAtLeast_finalize (w := { w with ended := _ :: w.ended }) h _ _ _ _
    | ack ht ackSeq =>
        exact ackedAtLeast_of_advances h (advances_handleAck ht ackSeq) (Nat.le_max_left ..)
    | cancel ht => exact h
    | finalize _ status message => exact ackedAtLeast_finalize h _ _ _ _
    | expire id => exact h
  · intro w requestId code message h
    exact h
  · intro w req t reply _ _ h
    have hbegun : AckedAtLeast run n (begun env w req t) := ⟨Nat.lt_succ_of_lt h.1, h.2⟩
    rcases @acceptTurn_cases env w req t reply with
      ⟨-, heq⟩ | ⟨message, -, heq⟩ | ⟨message, -, ⟨s, -, heq⟩ | ⟨-, heq⟩⟩
    · rw [heq]
      exact ackedAtLeast_opened h req t true
    · rw [heq]
      exact ackedAtLeast_finalize (ackedAtLeast_opened h req t false) _ _ _ _
    · rw [heq]
      exact ackedAtLeast_finalize hbegun _ _ _ _
    · rw [heq]
      exact hbegun

/-! ### A run that heeds its pauses -/

/-- The last flow call of the run was `pause`. -/
def held (w : SessionWorld) (run : RunId) : Prop :=
  (flowCalls w run).getLast? = some .pause

/-- The run emits nothing between `pause()` and `resume()`. -/
def Heeds (run : RunId) (w : SessionWorld) : SessionAction → Prop
  | .callback r (.event _) => r = run → ¬ held w run
  | _ => True

theorem held_iff {t : TurnState} {win : Window env.maxUnackedEvents} (h : t.Shows win)
    (hcalls : flowCalls w t.run = windowCalls win) : held w t.run ↔ t.paused = true := by
  rw [held, hcalls, windowCalls, getLast_alternation (by decide), h.paused, Window.stopped,
    decide_eq_true_iff]

/-- The turn of the run, if there is one, is not further ahead than the cap. -/
def WithinCap (env : SessionEnv) (run : RunId) (w : SessionWorld) : Prop :=
  ∀ id t, w.getTurn id = some t → t.run = run → t.sentSeq ≤ t.ackedSeq + env.maxUnackedEvents

theorem withinCap_of_shrinks {run : RunId} (h : WithinCap env run w)
    (hturns : ∀ id t, w'.getTurn id = some t → w.getTurn id = some t) : WithinCap env run w' :=
  fun id t ht => h id t (hturns id t ht)

theorem withinCap_of_advances {run : RunId} {t t' : TurnState} {msgs : List JsObject}
    {calls : List (RunId × SessionCall)} (h : WithinCap env run w)
    (hadv : Advances w w' t t' msgs calls)
    (ht' : t.run = run → t'.sentSeq ≤ t'.ackedSeq + env.maxUnackedEvents) :
    WithinCap env run w' := by
  intro id s hs hrun
  rw [hadv.turns] at hs
  split at hs
  · obtain rfl := Option.some.inj hs
    exact ht' (hadv.run ▸ hrun)
  · exact h id s hs hrun

/-- What is known of every state when the window of a turn is looked at. -/
structure FlowInvariant (env : SessionEnv) (w : SessionWorld) : Prop where
  owned : Owned env w
  numbered : Numbered w
  flow : Flow env w

theorem FlowInvariant.moves (h : FlowInvariant env w) (hmoves : SessionMoves env w w') :
    FlowInvariant env w' := by
  refine hmoves.keeps ?_ h
  intro w w' hmove h
  have hdesc := descends_move hmove
  exact ⟨owned_of_descends h.owned hdesc, numbered_of_descends h.numbered hdesc,
    flow_move h.numbered h.flow hmove⟩

/-- A run that is not held has room for an event. -/
theorem FlowInvariant.room (h : FlowInvariant env w) {t : TurnState} {id : JsString}
    (ht : w.getTurn id = some t) (hfree : ¬ held w t.run) :
    t.sentSeq + 1 ≤ t.ackedSeq + env.maxUnackedEvents := by
  obtain ⟨win, hcalls, hshows⟩ := h.flow t.run
  have hshow := hshows id t ht rfl
  rw [held_iff hshow hcalls, hshow.paused, Bool.not_eq_true] at hfree
  have hwithin := Window.within_emit hfree
  rw [hshow.sent, hshow.acked]
  exact hwithin

theorem withinCap_callback {run r : RunId} (hinv : FlowInvariant env w) (h : WithinCap env run w)
    (cb : SessionCallback) (hheeds : ∀ ev, cb = .event ev → r = run → ¬ held w run) :
    WithinCap env run (callback env w r cb) := by
  unfold callback
  split
  · exact h
  · rename_i started hfind
    have hr := List.mem_of_find?_eq_some hfind
    have hid : started.id = r := by
      have hp := List.find?_some hfind
      simp only [Bool.and_eq_true, decide_eq_true_eq] at hp
      exact hp.1
    cases cb with
    | done result forkHandle => exact withinCap_of_shrinks h fun _ _ => getTurn_of_done
    | event ev =>
        cases ht : w.getTurn started.turnId with
        | none =>
            show WithinCap env run (handleRunEvent env w started.turnId ev)
            unfold handleRunEvent
            rwa [ht]
        | some t =>
            have hrun := hinv.owned.run_eq hr ht
            have hturn := SessionWorld.turnId_of_getTurn ht
            show WithinCap env run (handleRunEvent env w started.turnId ev)
            rw [← hturn] at ht ⊢
            refine withinCap_of_advances h (advances_handleRunEvent ht ev) ?_
            intro hsame
            refine hinv.room ht ?_
            rw [hsame]
            exact hheeds ev rfl (hid.symm.trans (hrun.symm.trans hsame))

theorem withinCap_sync {run r : RunId} (hinv : FlowInvariant env w) (h : WithinCap env run w)
    (hne : r ≠ run) (sync : List SessionCallback) :
    WithinCap env run (sync.foldl (fun w cb => callback env w r cb) w) := by
  induction sync generalizing w with
  | nil => exact h
  | cons cb rest ih =>
      exact ih (hinv.moves (moves_callback r cb))
        (withinCap_callback hinv h cb fun _ _ hc => absurd hc hne)

/-- The turn that is given up is gone, whatever its run did meanwhile. -/
theorem withinCap_giveUp {run : RunId} (hinv : FlowInvariant env w) (h : WithinCap env run w)
    (id : JsString) (status : TurnStatus) (message : JsString) (sync : List SessionCallback) :
    WithinCap env run (giveUp env w id status message sync) := by
  unfold giveUp
  split
  · exact h
  · rename_i t ht
    have hid := SessionWorld.turnId_of_getTurn ht
    have hfound : w.getTurn t.turnId = some t := by rw [hid, ht]
    have hcancel := hinv.moves (.single (.cancel hfound))
    by_cases hne : t.run = run
    · intro k s hs hrun
      rw [getTurn_finalize] at hs
      split at hs
      · exact absurd hs nofun
      · rename_i hk
        -- A turn of this run was there all the time, and there is only one.
        obtain ⟨u, hu, -, hurun⟩ := (descends_moves (moves_cancelRun hfound sync)).turns k s hs
        have hrun' : u.run = t.run := hurun.trans (hrun.trans hne.symm)
        exact absurd (hinv.numbered.run_inj k id u t hu ht hrun') hk
    · exact withinCap_of_shrinks (withinCap_sync hcancel h hne sync)
        fun _ _ => getTurn_of_finalize

theorem withinCap_cancelTurns {run : RunId} (hinv : FlowInvariant env w)
    (h : WithinCap env run w) (sync : JsString → List SessionCallback) (ids : List JsString) :
    WithinCap env run (cancelTurns env sync w ids) := by
  induction ids generalizing w with
  | nil => exact h
  | cons id rest ih =>
      exact ih (hinv.moves (moves_giveUp id _ _ _)) (withinCap_giveUp hinv h id _ _ _)

theorem withinCap_opened {run : RunId} (h : WithinCap env run w) (req : TurnStart)
    (target : SessionTarget) (registered : Bool) :
    WithinCap env run (opened env w req target registered) := by
  intro id t ht hrun
  rw [getTurn_opened] at ht
  split at ht
  · obtain rfl := Option.some.inj ht
    exact Nat.zero_le _
  · exact h id t ht hrun

theorem withinCap_acceptTurn {run : RunId} (h : WithinCap env run w) (req : TurnStart)
    (target : SessionTarget) (reply : RunnerReply) :
    WithinCap env run (acceptTurn env w req target reply) := by
  have hbegun : WithinCap env run (begun env w req target) := h
  rcases @acceptTurn_cases env w req target reply with
    ⟨-, heq⟩ | ⟨message, -, heq⟩ | ⟨message, -, ⟨s, -, heq⟩ | ⟨-, heq⟩⟩
  · rw [heq]
    exact withinCap_opened h req target true
  · rw [heq]
    exact withinCap_of_shrinks (withinCap_opened h req target false)
      fun _ _ => getTurn_of_finalize
  · rw [heq]
    exact withinCap_of_shrinks hbegun fun _ _ => getTurn_of_finalize
  · rw [heq]
    exact hbegun

theorem withinCap_step {run : RunId} (hinv : FlowInvariant env w) (h : WithinCap env run w)
    (act : SessionAction) (hheeds : Heeds run w act) : WithinCap env run (w.step env act) := by
  cases act with
  | start req target reply =>
      show WithinCap env run (startTurn env w req target reply)
      rcases @startTurn_cases env w req target reply with ⟨code, message, heq⟩ | ⟨t, -, -, -, heq⟩
      · rw [heq]
        exact h
      · rw [heq]
        exact withinCap_acceptTurn h req t reply
  | cancel id =>
      show WithinCap env run (handleCancel env w id)
      unfold handleCancel
      split
      · exact h
      · exact h
  | ack id ackSeq =>
      show WithinCap env run (handleAck env w id ackSeq)
      cases ht : w.getTurn id with
      | none =>
          unfold handleAck
          rwa [ht]
      | some t =>
          have hid := SessionWorld.turnId_of_getTurn ht
          rw [← hid] at ht ⊢
          refine withinCap_of_advances h (advances_handleAck ht ackSeq) ?_
          intro hrun
          have hle := h _ t ht hrun
          show t.sentSeq ≤ max t.ackedSeq (min ackSeq t.sentSeq) + env.maxUnackedEvents
          omega
  | callback r cb =>
      refine withinCap_callback hinv h cb ?_
      rintro ev rfl hr
      exact hheeds hr
  | timeout id sync =>
      show WithinCap env run (onTimeout env w id sync)
      unfold onTimeout
      split
      · exact h
      · exact withinCap_giveUp (hinv.moves (.single (.expire id))) h _ _ _ _
  | close sync => exact withinCap_cancelTurns hinv h sync _

theorem flowInvariant_step (hcap : 0 < env.maxUnackedEvents)
    (hinj : Function.Injective env.turnId) (h : FlowInvariant env w) (act : SessionAction) :
    FlowInvariant env (w.step env act) := by
  obtain ⟨hnumbered, hflow⟩ := flow_step hcap ⟨h.numbered, h.flow⟩ act
  exact ⟨owned_step hinj h.owned act, hnumbered, hflow⟩

theorem withinCap_run {run : RunId} (hcap : 0 < env.maxUnackedEvents)
    (hinj : Function.Injective env.turnId) {acts : List SessionAction}
    (h : Machine.Along (SessionWorld.step env) (Heeds run) SessionWorld.start acts) :
    WithinCap env run (SessionWorld.runFrom env acts) := by
  refine (Machine.run_invariant (SessionWorld.step env)
    (I := fun w => FlowInvariant env w ∧ WithinCap env run w) ?_ ?_ h).2
  · intro w act h hheeds
    exact ⟨flowInvariant_step hcap hinj h.1 act, withinCap_step h.1 h.2 act hheeds⟩
  · obtain ⟨hnumbered, hflow⟩ := flow_run hcap []
    exact ⟨⟨ownedRuns_start, hnumbered, hflow⟩, fun _ _ ht => nomatch ht⟩

/-! ### Flow control -/

/-- What flow control does in every run of the manager.  A turn is known by its run. -/
structure FlowControlled (env : SessionEnv) (acts : List SessionAction) : Prop where
  bounds : ∀ t ∈ (SessionWorld.runFrom env acts).turns.rows, 0 ≤ t.ackedSeq ∧ t.ackedSeq ≤ t.sentSeq
  monotone : ∀ pre post, acts = pre ++ post →
    ∀ t ∈ (SessionWorld.runFrom env pre).turns.rows,
    ∀ t' ∈ (SessionWorld.runFrom env acts).turns.rows, t.run = t'.run → t.ackedSeq ≤ t'.ackedSeq
  paused : ∀ t ∈ (SessionWorld.runFrom env acts).turns.rows,
    t.paused = true ↔ env.maxUnackedEvents ≤ t.sentSeq - t.ackedSeq
  alternate : ∀ run, ∃ n,
    flowCalls (SessionWorld.runFrom env acts) run = alternation .pause .resume n
  /-- Ids of turns are `randomUUID`s: they differ. -/
  window : ∀ run, Function.Injective env.turnId →
    Machine.Along (SessionWorld.step env) (Heeds run) SessionWorld.start acts →
    ∀ t ∈ (SessionWorld.runFrom env acts).turns.rows, t.run = run →
      t.sentSeq - t.ackedSeq ≤ env.maxUnackedEvents

theorem ackedSeq_mono (pre post : List SessionAction) {t t' : TurnState}
    (hn : Numbered (SessionWorld.runFrom env pre))
    (ht : t ∈ (SessionWorld.runFrom env pre).turns.rows)
    (ht' : t' ∈ (SessionWorld.runFrom env (pre ++ post)).turns.rows) (hrun : t.run = t'.run) :
    t.ackedSeq ≤ t'.ackedSeq := by
  have hfound := Table.find?_eq_some.mpr ⟨ht, rfl⟩
  have hstart : AckedAtLeast t.run t.ackedSeq (SessionWorld.runFrom env pre) := by
    refine ⟨hn.run_lt _ t hfound, ?_⟩
    intro id s hs hsrun
    have hid := hn.run_inj id _ s t hs hfound hsrun
    rw [hid] at hs
    rw [Option.some.inj (hs.symm.trans hfound)]
  have hend := Machine.run_invariant_all (SessionWorld.step env)
    (I := AckedAtLeast t.run t.ackedSeq) (fun _ act h => ackedAtLeast_step h act) hstart post
  rw [SessionWorld.runFrom, Machine.run_append] at ht'
  exact hend.2 _ t' (Table.find?_eq_some.mpr ⟨ht', rfl⟩) hrun.symm

/-- **Flow control.** -/
theorem flow_controlled (env : SessionEnv) (hcap : 1 ≤ env.maxUnackedEvents)
    (acts : List SessionAction) : FlowControlled env acts := by
  obtain ⟨hnumbered, hflow⟩ := flow_run hcap acts
  refine ⟨?_, ?_, ?_, ?_, ?_⟩
  · intro t ht
    obtain ⟨win, -, hshow⟩ := hflow.window ht
    rw [hshow.acked, hshow.sent]
    exact ⟨Nat.zero_le _, win.acked_le⟩
  · rintro pre post rfl t ht t' ht' hrun
    exact ackedSeq_mono pre post (flow_run hcap pre).1 ht ht' hrun
  · intro t ht
    obtain ⟨win, -, hshow⟩ := hflow.window ht
    have hle := win.acked_le
    rw [hshow.paused, win.stopped_eq, decide_eq_true_iff, hshow.acked, hshow.sent]
    omega
  · intro run
    obtain ⟨win, hcalls, -⟩ := hflow run
    exact ⟨win.switches, hcalls⟩
  · intro run hinj hheeds t ht hrun
    have hle := withinCap_run hcap hinj hheeds _ t (Table.find?_eq_some.mpr ⟨ht, rfl⟩) hrun
    omega

/-- A window of two, filled, emptied and filled again. -/
def sampleFlow : List SessionAction :=
  [sampleStart "r" .claude, .callback 0 sampleUsage, .callback 0 sampleUsage,
    .ack (js "turn-") 7, .callback 0 sampleUsage, .ack (js "turn-") 1, .callback 0 sampleUsage]

example : flowCalls (SessionWorld.runFrom (sampleSessions 2) sampleFlow) 0 =
    [.pause, .resume, .pause] := by decide +kernel

theorem flow_controlled_sample : FlowControlled (sampleSessions 2) sampleFlow ∧
    ∀ t ∈ (SessionWorld.runFrom (sampleSessions 2) sampleFlow).turns.rows, t.run = 0 →
      t.sentSeq - t.ackedSeq ≤ 2 := by
  have h := flow_controlled (sampleSessions 2) (by decide) sampleFlow
  refine ⟨h, h.window 0 (sampleSessions_injective 2) ?_⟩
  refine ⟨trivial, ?_, ?_, trivial, ?_, trivial, ?_, trivial⟩
  all_goals
    intro _
    unfold held
    decide +kernel

end HuginAgent
