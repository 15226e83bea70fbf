/-
Whose run is whose.

A turn has a run of its own, started once; a run has the turn it was started for.  The
first needs nothing but that runs are numbered.  For the second the ids of turns must
differ, which is what `randomUUID` is for.
-/
import HuginAgent.Sessions.Moves

namespace HuginAgent

open SessionResumeManager

variable {env : SessionEnv} {w w' : SessionWorld}

/-! ### A turn has a run of its own -/

/-- A run belongs to one turn, and only runs that have been started are called. -/
structure Numbered (w : SessionWorld) : Prop where
  run_lt : ∀ (id : JsString) (t : TurnState), w.getTurn id = some t → t.run < w.nextRun
  run_inj : ∀ (id id' : JsString) (t t' : TurnState), w.getTurn id = some t →
    w.getTurn id' = some t' → t.run = t'.run → id = id'
  call_lt : ∀ c ∈ w.calls, c.1 < w.nextRun

theorem numbered_of_descends (h : Numbered w) (hdesc : Descends w w') : Numbered w' where
  run_lt := by
    intro id t ht
    obtain ⟨s, hs, -, hrun⟩ := hdesc.turns id t ht
    rw [hdesc.nextRun, ← hrun]
    exact h.run_lt id s hs
  run_inj := by
    intro id id' t t' ht ht' heq
    obtain ⟨s, hs, -, hrun⟩ := hdesc.turns id t ht
    obtain ⟨s', hs', -, hrun'⟩ := hdesc.turns id' t' ht'
    exact h.run_inj id id' s s' hs hs' (hrun.trans (heq.trans hrun'.symm))
  call_lt := by
    intro c hc
    rw [hdesc.nextRun]
    rcases hdesc.calls c hc with hold | ⟨id, t, ht, hrun⟩
    · exact h.call_lt c hold
    · rw [hrun]
      exact h.run_lt id t ht

theorem numbered_opened (h : Numbered w) (req : TurnStart) (target : SessionTarget)
    (registered : Bool) : Numbered (opened env w req target registered) := by
  have hcases : ∀ id s, (opened env w req target registered).getTurn id = some s →
      (id = env.turnId w.draws ∧ s.run = w.nextRun) ∨
        (w.getTurn id = some s ∧ s.run < w.nextRun) := by
    intro id s hs
    rw [getTurn_opened] at hs
    split at hs
    · rename_i hid
      obtain rfl := Option.some.inj hs
      exact Or.inl ⟨hid, rfl⟩
    · exact Or.inr ⟨hs, h.run_lt id s hs⟩
  refine ⟨?_, ?_, ?_⟩
  · intro id s hs
    show s.run < w.nextRun + 1
    rcases hcases id s hs with ⟨-, hrun⟩ | ⟨-, hlt⟩
    · exact hrun ▸ Nat.lt_succ_self _
    · exact Nat.lt_succ_of_lt hlt
  · intro id id' s s' hs hs' heq
    rcases hcases id s hs with ⟨hid, hrun⟩ | ⟨hold, hlt⟩
    · rcases hcases id' s' hs' with ⟨hid', -⟩ | ⟨-, hlt'⟩
      · exact hid.trans hid'.symm
      · exact absurd (hrun.symm.trans heq) (Nat.ne_of_gt hlt')
    · rcases hcases id' s' hs' with ⟨-, hrun'⟩ | ⟨hold', -⟩
      · exact absurd (heq.trans hrun') (Nat.ne_of_lt hlt)
      · exact h.run_inj id id' s s' hold hold' heq
  · intro c hc
    show c.1 < w.nextRun + 1
    rcases List.mem_append.mp hc with hc | hc
    · exact Nat.lt_succ_of_lt (h.call_lt c hc)
    · rw [List.mem_singleton.mp hc]
      exact Nat.lt_succ_self _

theorem numbered_begun (h : Numbered w) (req : TurnStart) (target : SessionTarget) :
    Numbered (begun env w req target) := by
  refine ⟨fun id t ht => Nat.lt_succ_of_lt (h.run_lt id t ht), h.run_inj, ?_⟩
  intro c hc
  show c.1 < w.nextRun + 1
  rcases List.mem_append.mp hc with hc | hc
  · exact Nat.lt_succ_of_lt (h.call_lt c hc)
  · rw [List.mem_singleton.mp hc]
    exact Nat.lt_succ_self _

theorem numbered_finalize (h : Numbered w) (id : JsString) (status : TurnStatus)
    (message : JsString) (handle : Option JsString) :
    Numbered (finalize env w id status message handle) :=
  numbered_of_descends h (descends_finalize ..)

theorem numbered_acceptTurn (h : Numbered w) (req : TurnStart) (target : SessionTarget)
    (reply : RunnerReply) : Numbered (acceptTurn env w req target reply) := by
  have hbegun := @numbered_begun env w h req target
  rcases @acceptTurn_cases env w req target reply with
    ⟨-, heq⟩ | ⟨message, -, heq⟩ | ⟨message, -, ⟨s, -, heq⟩ | ⟨-, heq⟩⟩
  · rw [heq]
    exact numbered_opened h req target true
  · rw [heq]
    exact numbered_finalize (numbered_opened h req target false) _ _ _ _
  · rw [heq]
    exact numbered_finalize hbegun _ _ _ _
  · rw [heq]
    exact ⟨hbegun.run_lt, hbegun.run_inj, hbegun.call_lt⟩

theorem numbered_start : Numbered SessionWorld.start where
  run_lt := fun _ _ ht => nomatch ht
  run_inj := fun _ _ _ _ ht => nomatch ht
  call_lt := fun _ hc => nomatch hc

/-! ### A run has the turn it was started for -/

/-- Turns and runs carry ids that have been drawn, a turn has the run it was opened with, and a
run that has ended has no turn left. -/
structure Owned (env : SessionEnv) (w : SessionWorld) : Prop where
  turn_drawn : ∀ (id : JsString) (t : TurnState), w.getTurn id = some t →
    ∃ n < w.draws, id = env.turnId n
  run_drawn : ∀ r ∈ w.runs, ∃ n < w.draws, r.turnId = env.turnId n
  run_lt : ∀ r ∈ w.runs, r.id < w.nextRun
  run_inj : ∀ r ∈ w.runs, ∀ r' ∈ w.runs, r.id = r'.id → r = r'
  turn_inj : ∀ r ∈ w.runs, ∀ r' ∈ w.runs, r.turnId = r'.turnId → r = r'
  run_of_turn : ∀ (id : JsString) (t : TurnState), w.getTurn id = some t →
    ∃ r ∈ w.runs, r.id = t.run ∧ r.turnId = id
  ended_lt : ∀ run ∈ w.ended, run < w.nextRun
  ended_closed : ∀ r ∈ w.runs, r.id ∈ w.ended → w.getTurn r.turnId = none

theorem Owned.run_eq (h : Owned env w) {r : StartedRun} {t : TurnState} (hr : r ∈ w.runs)
    (ht : w.getTurn r.turnId = some t) : t.run = r.id := by
  obtain ⟨r', hr', hid, hturn⟩ := h.run_of_turn _ t ht
  rw [← hid, h.turn_inj r' hr' r hr hturn]

theorem owned_of_descends (h : Owned env w) (hdesc : Descends w w') : Owned env w' := by
  have hdrawn : ∀ id, (∃ n < w.draws, id = env.turnId n) → ∃ n < w'.draws, id = env.turnId n :=
    fun id ⟨n, hn, hid⟩ => ⟨n, Nat.lt_of_lt_of_le hn hdesc.draws, hid⟩
  refine ⟨?_, ?_, ?_, ?_, ?_, ?_, ?_, ?_⟩
  · intro id s hs
    obtain ⟨t, ht, -⟩ := hdesc.turns id s hs
    exact hdrawn id (h.turn_drawn id t ht)
  · rw [hdesc.runs]
    exact fun r hr => hdrawn _ (h.run_drawn r hr)
  · rw [hdesc.runs, hdesc.nextRun]
    exact h.run_lt
  · rw [hdesc.runs]
    exact h.run_inj
  · rw [hdesc.runs]
    exact h.turn_inj
  · intro id s hs
    obtain ⟨t, ht, -, hrun⟩ := hdesc.turns id s hs
    rw [hdesc.runs, ← hrun]
    exact h.run_of_turn id t ht
  · intro run hrun
    rw [hdesc.nextRun]
    rcases hdesc.ended run hrun with hold | ⟨r, hr, hid, -⟩
    · exact h.ended_lt run hold
    · exact hid ▸ h.run_lt r hr
  · rw [hdesc.runs]
    intro r hr hrun
    rcases hdesc.ended r.id hrun with hold | ⟨r', hr', hid, hclosed⟩
    · exact hdesc.getTurn_none (h.ended_closed r hr hold)
    · rwa [← h.run_inj r' hr' r hr hid]

theorem owned_send (h : Owned env w) (build : Envelope → JsObject) :
    Owned env (w.send env build) :=
  owned_of_descends h ⟨rfl, rfl, Nat.le_succ _, fun _ t ht => ⟨t, ht, rfl, rfl⟩,
    fun _ hc => Or.inl hc, fun _ hrun => Or.inl hrun⟩

theorem owned_failed (h : Owned env w) (req : TurnStart) (target : SessionTarget)
    (message : JsString) : Owned env (failed env w req target message) := by
  have hdrawn : ∀ id, (∃ n < w.draws, id = env.turnId n) →
      ∃ n < w.draws + 3, id = env.turnId n :=
    fun id ⟨n, hn, hid⟩ => ⟨n, Nat.lt_add_right 3 hn, hid⟩
  exact ⟨fun id t ht => hdrawn id (h.turn_drawn id t ht), fun r hr => hdrawn _ (h.run_drawn r hr),
    fun r hr => Nat.lt_succ_of_lt (h.run_lt r hr), h.run_inj, h.turn_inj, h.run_of_turn,
    fun run hrun => Nat.lt_succ_of_lt (h.ended_lt run hrun), h.ended_closed⟩

theorem ownedRuns_start : Owned env SessionWorld.start where
  turn_drawn := fun _ _ ht => nomatch ht
  run_drawn := fun _ hr => nomatch hr
  run_lt := fun _ hr => nomatch hr
  run_inj := fun _ hr => nomatch hr
  turn_inj := fun _ hr => nomatch hr
  run_of_turn := fun _ _ ht => nomatch ht
  ended_lt := fun _ hrun => nomatch hrun
  ended_closed := fun _ hr => nomatch hr

section Fresh

variable (hinj : Function.Injective env.turnId)
include hinj

theorem Owned.fresh (h : Owned env w) : w.getTurn (env.turnId w.draws) = none := by
  cases ht : w.getTurn (env.turnId w.draws) with
  | none => rfl
  | some t =>
      obtain ⟨n, hn, hid⟩ := h.turn_drawn _ t ht
      exact absurd (hinj hid) (Nat.ne_of_gt hn)

theorem Owned.fresh_run (h : Owned env w) {r : StartedRun} (hr : r ∈ w.runs) :
    r.turnId ≠ env.turnId w.draws := by
  obtain ⟨n, hn, hid⟩ := h.run_drawn r hr
  rw [hid]
  exact fun hc => Nat.ne_of_lt hn (hinj hc)

theorem owned_opened (h : Owned env w) (req : TurnStart) (target : SessionTarget)
    (registered : Bool) : Owned env (opened env w req target registered) := by
  have hdrawn : ∀ id, (∃ n < w.draws, id = env.turnId n) →
      ∃ n < w.draws + 2, id = env.turnId n :=
    fun id ⟨n, hn, hid⟩ => ⟨n, Nat.lt_add_right 2 hn, hid⟩
  have hnow : ∃ n < w.draws + 2, env.turnId w.draws = env.turnId n :=
    ⟨w.draws, Nat.lt_add_of_pos_right Nat.zero_lt_two, rfl⟩
  have hold : ∀ r ∈ w.runs, r.id ≠ w.nextRun := fun r hr => Nat.ne_of_lt (h.run_lt r hr)
  refine ⟨?_, ?_, ?_, ?_, ?_, ?_, ?_, ?_⟩
  · intro id t ht
    rw [getTurn_opened] at ht
    split at ht
    · rename_i hid
      exact hid ▸ hnow
    · exact hdrawn id (h.turn_drawn id t ht)
  · intro r hr
    rcases List.mem_cons.mp hr with rfl | hr
    · exact hnow
    · exact hdrawn _ (h.run_drawn r hr)
  · intro r hr
    show r.id < w.nextRun + 1
    rcases List.mem_cons.mp hr with rfl | hr
    · exact Nat.lt_succ_self _
    · exact Nat.lt_succ_of_lt (h.run_lt r hr)
  · intro r hr r' hr' heq
    rcases List.mem_cons.mp hr with rfl | hr
    · rcases List.mem_cons.mp hr' with rfl | hr'
      · rfl
      · exact absurd heq.symm (hold r' hr')
    · rcases List.mem_cons.mp hr' with rfl | hr'
      · exact absurd heq (hold r hr)
      · exact h.run_inj r hr r' hr' heq
  · intro r hr r' hr' heq
    rcases List.mem_cons.mp hr with rfl | hr
    · rcases List.mem_cons.mp hr' with rfl | hr'
      · rfl
      · exact absurd heq.symm (h.fresh_run hinj hr')
    · rcases List.mem_cons.mp hr' with rfl | hr'
      · exact absurd heq (h.fresh_run hinj hr)
      · exact h.turn_inj r hr r' hr' heq
  · intro id t ht
    rw [getTurn_opened] at ht
    split at ht
    · rename_i hid
      obtain rfl := Option.some.inj ht
      exact ⟨_, List.mem_cons_self, rfl, hid.symm⟩
    · obtain ⟨r, hr, hrun⟩ := h.run_of_turn id t ht
      exact ⟨r, List.mem_cons_of_mem _ hr, hrun⟩
  · intro run hrun
    exact Nat.lt_succ_of_lt (h.ended_lt run hrun)
  · intro r hr hrun
    rcases List.mem_cons.mp hr with rfl | hr
    · exact absurd (h.ended_lt _ hrun) (Nat.lt_irrefl _)
    · rw [getTurn_opened, if_neg (h.fresh_run hinj hr)]
      exact h.ended_closed r hr hrun

/-- How a turn begins, when its id is new. -/
theorem acceptTurn_fresh (h : Owned env w) (req : TurnStart) (target : SessionTarget)
    (reply : RunnerReply) :
    (reply = .runs ∧ acceptTurn env w req target reply = opened env w req target true) ∨
      (∃ message, reply = .registerThrows message ∧ acceptTurn env w req target reply =
        finalize env (opened env w req target false) (env.turnId w.draws) .error message none) ∨
      ∃ message, reply = .runThrows message ∧
        acceptTurn env w req target reply = failed env w req target message := by
  rcases @acceptTurn_cases env w req target reply with
    hruns | hregister | ⟨message, hreply, ⟨t, ht, -⟩ | ⟨-, heq⟩⟩
  · exact Or.inl hruns
  · exact Or.inr (Or.inl hregister)
  · exact absurd ((h.fresh hinj).symm.trans ht) nofun
  · exact Or.inr (Or.inr ⟨message, hreply, heq⟩)

theorem owned_acceptTurn (h : Owned env w) (req : TurnStart) (target : SessionTarget)
    (reply : RunnerReply) : Owned env (acceptTurn env w req target reply) := by
  rcases acceptTurn_fresh hinj h req target reply with
    ⟨-, heq⟩ | ⟨message, -, heq⟩ | ⟨message, -, heq⟩
  · rw [heq]
    exact owned_opened hinj h req target true
  · rw [heq]
    exact owned_of_descends (owned_opened hinj h req target false) (descends_finalize ..)
  · rw [heq]
    exact owned_failed h req target message

theorem owned_step (h : Owned env w) (act : SessionAction) : Owned env (w.step env act) := by
  refine step_keeps (I := Owned env) ?_ ?_ ?_ act h
  · intro w w' hmove h
    exact owned_of_descends h (descends_move hmove)
  · intro w requestId code message h
    exact owned_send h _
  · intro w req t reply _ _ h
    exact owned_acceptTurn hinj h req t reply

end Fresh

/-! ### A sample -/

/-- Both runners, and ids drawn by counting. -/
def sampleSessions (cap : Nat) : SessionEnv where
  claude := true
  codex := true
  maxUnackedEvents := cap
  cancelGraceMs := 5000
  turnId n := js "turn-" ++ List.replicate n (unit 'i')
  envelope n := ⟨js "msg-" ++ (JsNumber.ofInt n).text, js "2026-01-01T00:00:00.000Z"⟩

theorem sampleSessions_injective (cap : Nat) : Function.Injective (sampleSessions cap).turnId := by
  intro m n h
  have hlength := congrArg List.length (List.append_cancel_left h)
  rwa [List.length_replicate, List.length_replicate] at hlength

def sampleStart (requestId : String) (engine : EngineName) : SessionAction :=
  .start ⟨js requestId, js "go"⟩ (some ⟨engine, js "s", js "/repo"⟩) .runs

theorem sampleUsage_wellFormed : (JsValue.obj [(js "kind", .lit "usage")]).wellFormed = true := by
  decide

def sampleUsage : SessionCallback :=
  .event ⟨[(js "kind", .lit "usage")], sampleUsage_wellFormed⟩

end HuginAgent
