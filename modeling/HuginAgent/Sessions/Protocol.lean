/-
The protocol of a turn.

A request is answered once; a turn that is accepted sends its events in order and then at
most one result.  What a turn has sent is read off the messages, by `turnFrames`.  An open
turn has sent the acceptance and its events so far; a turn that is no longer open has sent
its result, and nothing after it.

That the streams of two turns do not mix rests on the ids of turns being different, which
is what `randomUUID` is for.
-/
import HuginAgent.Sessions.Runs

namespace HuginAgent

open SessionResumeManager

variable {env : SessionEnv} {w w' : SessionWorld}

/-! ### What a turn has sent -/

def turnIdOf (msg : JsObject) : Option JsString :=
  match msg.get (js "turn_id") with
  | .str id => some id
  | _ => none

/-- A message of a turn: its `type` and its `seq`. -/
abbrev TurnFrame := JsValue × JsValue

def acceptFrame : TurnFrame := (.lit "session.resume.accept", .undefined)

def eventFrame (seq : Nat) : TurnFrame := (.lit "session.event", .ofNat seq)

def resultFrame : TurnFrame := (.lit "session.turn.result", .undefined)

def framesOf (id : JsString) (msgs : List JsObject) : List TurnFrame :=
  (msgs.filter fun msg => turnIdOf msg = some id).map
    fun msg => (msg.get (js "type"), msg.get (js "seq"))

/-- The messages of a turn, in order. -/
def turnFrames (w : SessionWorld) (id : JsString) : List TurnFrame := framesOf id w.sent

/-- Accepted, and the events 1, …, `n`. -/
def openFrames (n : Nat) : List TurnFrame :=
  acceptFrame :: (List.range n).map fun i => eventFrame (i + 1)

/-- A turn has sent nothing, or its acceptance and events without a gap, and then perhaps its
result. -/
inductive TurnStream : List TurnFrame → Prop
  | silent : TurnStream []
  | opened (n : Nat) : TurnStream (openFrames n)
  | closed (n : Nat) : TurnStream (openFrames n ++ [resultFrame])

def Accepted (w : SessionWorld) (id : JsString) : Prop := turnFrames w id ≠ []

/-- The turn has sent its result, as its last message. -/
def Closed (w : SessionWorld) (id : JsString) : Prop :=
  ∃ n, turnFrames w id = openFrames n ++ [resultFrame]

theorem openFrames_succ (n : Nat) : openFrames (n + 1) = openFrames n ++ [eventFrame (n + 1)] := by
  rw [openFrames, List.range_succ, List.map_append]
  rfl

theorem turnFrames_append {msgs : List JsObject} (h : w'.sent = w.sent ++ msgs) (id : JsString) :
    turnFrames w' id = turnFrames w id ++ framesOf id msgs := by
  rw [turnFrames, h, framesOf, List.filter_append, List.map_append]
  rfl

theorem framesOf_singleton {msg : JsObject} {turnId : JsString} (h : turnIdOf msg = some turnId)
    (id : JsString) :
    framesOf id [msg] =
      if id = turnId then [(msg.get (js "type"), msg.get (js "seq"))] else [] := by
  rw [framesOf, List.filter_singleton, h]
  by_cases hid : id = turnId
  · simp [hid]
  · simp [hid, Ne.symm hid]

theorem framesOf_event (id turnId : JsString) (seq : Nat) (ev : EngineEvent) (e : Envelope) :
    framesOf id [sessionEvent turnId seq ev e] = if id = turnId then [eventFrame seq] else [] :=
  framesOf_singleton rfl id

theorem framesOf_result (id turnId : JsString) (status : TurnStatus) (message : JsString)
    (handle : Option JsString) (e : Envelope) :
    framesOf id [sessionTurnResult turnId status message handle e] =
      if id = turnId then [resultFrame] else [] :=
  framesOf_singleton rfl id

theorem framesOf_accept (id requestId turnId : JsString) (fork mutates : Bool) (e : Envelope) :
    framesOf id [sessionAccept requestId turnId fork mutates e] =
      if id = turnId then [acceptFrame] else [] :=
  framesOf_singleton rfl id

theorem framesOf_reject (id requestId code message : JsString) (e : Envelope) :
    framesOf id [sessionReject requestId code message e] = [] := rfl

/-! ### Streams and turns -/

/-- The turns that are open have sent what they count, the others nothing or everything, and
the mutex is held for the open ones. -/
structure TurnLog (env : SessionEnv) (w : SessionWorld) : Prop where
  opened : ∀ (id : JsString) (t : TurnState), w.getTurn id = some t →
    turnFrames w id = openFrames t.sentSeq
  closed : ∀ id : JsString, w.getTurn id = none → Accepted w id → Closed w id
  drawn : ∀ id : JsString, Accepted w id → ∃ n < w.draws, id = env.turnId n
  run_accepted : ∀ r ∈ w.runs, Accepted w r.turnId
  timer_accepted : ∀ timer ∈ w.timers, Accepted w timer.2
  timer_lt : ∀ timer ∈ w.timers, timer.1 < w.nextTimer
  timer_inj : (w.timers.map Prod.fst).Nodup
  active_iff : ∀ key, key ∈ w.active ↔ ∃ id t, w.getTurn id = some t ∧ t.key = key
  key_inj : ∀ (id id' : JsString) (t t' : TurnState), w.getTurn id = some t →
    w.getTurn id' = some t' → t.key = t'.key → id = id'

/-! #### A turn goes on -/

theorem turnLog_of_advances {t t' : TurnState} {msgs : List JsObject}
    {calls : List (RunId × SessionCall)} (h : TurnLog env w) (hadv : Advances w w' t t' msgs calls)
    (hdesc : Descends w w')
    (hmsgs : ∀ id, framesOf id msgs = [] ∨ id = t.turnId)
    (hframes : openFrames t.sentSeq ++ framesOf t.turnId msgs = openFrames t'.sentSeq) :
    TurnLog env w' := by
  have hsent := turnFrames_append (w := w) (by rw [hadv.frame] : w'.sent = w.sent ++ msgs)
  have hother : ∀ id, id ≠ t.turnId → turnFrames w' id = turnFrames w id := by
    intro id hid
    rw [hsent, (hmsgs id).resolve_right hid, List.append_nil]
  have hself : turnFrames w' t.turnId = openFrames t'.sentSeq := by
    rw [hsent, h.opened _ t hadv.found, hframes]
  have haccepted : ∀ id, Accepted w' id ↔ Accepted w id := by
    intro id
    by_cases hid : id = t.turnId
    · rw [Accepted, Accepted, hid, hself, h.opened _ t hadv.found]
      exact iff_of_true (List.cons_ne_nil _ _) (List.cons_ne_nil _ _)
    · rw [Accepted, Accepted, hother id hid]
  refine ⟨?_, ?_, ?_, ?_, ?_, ?_, ?_, ?_, ?_⟩
  · intro id s hs
    rw [hadv.turns] at hs
    split at hs
    · rename_i hid
      obtain rfl := Option.some.inj hs
      rw [hid, hself]
    · rename_i hid
      rw [hother id hid, h.opened id s hs]
  · intro id hnone hacc
    rw [hadv.turns] at hnone
    split at hnone
    · exact absurd hnone nofun
    · rename_i hid
      obtain ⟨n, hn⟩ := h.closed id hnone ((haccepted id).mp hacc)
      exact ⟨n, (hother id hid).trans hn⟩
  · intro id hacc
    obtain ⟨n, hn, hid⟩ := h.drawn id ((haccepted id).mp hacc)
    exact ⟨n, Nat.lt_of_lt_of_le hn hadv.draws, hid⟩
  · rw [hdesc.runs]
    exact fun r hr => (haccepted _).mpr (h.run_accepted r hr)
  · rw [hadv.frame]
    exact fun timer ht => hadv.frame ▸ (haccepted _).mpr (h.timer_accepted timer ht)
  · rw [hadv.frame]
    exact h.timer_lt
  · rw [hadv.frame]
    exact h.timer_inj
  · intro key
    rw [show w'.active = w.active by rw [hadv.frame], h.active_iff]
    constructor
    · rintro ⟨id, s, hs, hkey⟩
      by_cases hid : id = t.turnId
      · refine ⟨id, t', by rw [hadv.turns, if_pos hid], ?_⟩
        rw [hid, hadv.found] at hs
        rw [hadv.key, Option.some.inj hs, hkey]
      · exact ⟨id, s, by rw [hadv.turns, if_neg hid, hs], hkey⟩
    · rintro ⟨id, s, hs, hkey⟩
      obtain ⟨u, hu, hukey, -⟩ := hdesc.turns id s hs
      exact ⟨id, u, hu, hukey.trans hkey⟩
  · intro id id' s s' hs hs' hkey
    obtain ⟨u, hu, hukey, -⟩ := hdesc.turns id s hs
    obtain ⟨u', hu', hukey', -⟩ := hdesc.turns id' s' hs'
    exact h.key_inj id id' u u' hu hu' (hukey.trans (hkey.trans hukey'.symm))

/-! #### A turn ends -/

theorem turnLog_finalize (h : TurnLog env w) (id : JsString) (status : TurnStatus)
    (message : JsString) (handle : Option JsString) :
    TurnLog env (finalize env w id status message handle) := by
  cases ht : w.getTurn id with
  | none => rwa [finalize_of_none ht]
  | some t =>
      have hdesc := @descends_finalize env w id status message handle
      have hturns := @getTurn_finalize env w id status message handle
      have hframes : ∀ k, turnFrames (finalize env w id status message handle) k =
          turnFrames w k ++ if k = id then [resultFrame] else [] := by
        intro k
        rw [turnFrames_append (w := w) (by rw [finalize_of_some ht]), framesOf_result]
      have haccepted : ∀ k, Accepted w k → Accepted (finalize env w id status message handle) k := by
        intro k hk hnil
        rw [hframes, List.append_eq_nil_iff] at hnil
        exact hk hnil.1
      have hopen : ∀ k, Accepted (finalize env w id status message handle) k → Accepted w k := by
        intro k hk hnil
        by_cases hkid : k = id
        · rw [hkid, h.opened id t ht] at hnil
          exact absurd hnil (List.cons_ne_nil _ _)
        · rw [Accepted, hframes, hnil, if_neg hkid] at hk
          exact hk rfl
      refine ⟨?_, ?_, ?_, ?_, ?_, ?_, ?_, ?_, ?_⟩
      · intro k s hs
        rw [hturns] at hs
        split at hs
        · exact absurd hs nofun
        · rename_i hk
          rw [hframes, if_neg hk, List.append_nil, h.opened k s hs]
      · intro k hnone hacc
        by_cases hk : k = id
        · exact ⟨t.sentSeq, by rw [hframes, if_pos hk, hk, h.opened id t ht]⟩
        · rw [hturns, if_neg hk] at hnone
          obtain ⟨n, hn⟩ := h.closed k hnone (hopen k hacc)
          exact ⟨n, by rw [hframes, if_neg hk, List.append_nil, hn]⟩
      · intro k hacc
        obtain ⟨n, hn, hk⟩ := h.drawn k (hopen k hacc)
        exact ⟨n, Nat.lt_of_lt_of_le hn hdesc.draws, hk⟩
      · rw [hdesc.runs]
        exact fun r hr => haccepted _ (h.run_accepted r hr)
      · intro timer htimer
        rw [finalize_of_some ht] at htimer
        exact haccepted _ (h.timer_accepted timer (List.mem_of_mem_filter htimer))
      · rw [finalize_of_some ht]
        exact fun timer htimer => h.timer_lt timer (List.mem_of_mem_filter htimer)
      · rw [finalize_of_some ht]
        exact h.timer_inj.sublist (List.filter_sublist.map Prod.fst)
      · intro key
        have hactive : (finalize env w id status message handle).active =
            w.active.filter fun k => k ≠ t.key := by rw [finalize_of_some ht]
        rw [hactive, List.mem_filter, h.active_iff, decide_eq_true_iff]
        constructor
        · rintro ⟨⟨k, s, hs, hkey⟩, hne⟩
          refine ⟨k, s, ?_, hkey⟩
          rw [hturns, if_neg, hs]
          rintro rfl
          rw [ht] at hs
          exact hne (hkey.symm.trans (congrArg TurnState.key (Option.some.inj hs)).symm)
        · rintro ⟨k, s, hs, hkey⟩
          rw [hturns] at hs
          split at hs
          · exact absurd hs nofun
          · rename_i hk
            refine ⟨⟨k, s, hs, hkey⟩, ?_⟩
            rintro rfl
            exact hk (h.key_inj k id s t hs ht hkey)
      · exact fun k k' s s' hs hs' => h.key_inj k k' s s' (getTurn_of_finalize hs)
          (getTurn_of_finalize hs')

theorem turnLog_move (h : TurnLog env w) (hmove : SessionMove env w w') : TurnLog env w' := by
  have hdesc := descends_move hmove
  cases hmove with
  | @event r t _ _ _ ht ev =>
      refine turnLog_of_advances h (advances_handleRunEvent ht ev) hdesc ?_ ?_
      · intro id
        rw [framesOf_event]
        split
        · rename_i hid
          exact Or.inr hid
        · exact Or.inl rfl
      · rw [framesOf_event, if_pos rfl]
        exact (openFrames_succ _).symm
  | @done r hr hreg result forkHandle =>
      have hended : TurnLog env { w with ended := r.id :: w.ended } :=
        ⟨h.opened, h.closed, h.drawn, h.run_accepted, h.timer_accepted, h.timer_lt, h.timer_inj,
          h.active_iff, h.key_inj⟩
      exact turnLog_finalize hended _ _ _ _
  | ack ht ackSeq =>
      exact turnLog_of_advances h (advances_handleAck ht ackSeq) hdesc (fun _ => Or.inl rfl)
        (List.append_nil _)
  | cancel ht =>
      exact ⟨h.opened, h.closed, h.drawn, h.run_accepted, h.timer_accepted, h.timer_lt,
        h.timer_inj, h.active_iff, h.key_inj⟩
  | finalize _ status message => exact turnLog_finalize h _ _ _ _
  | expire id =>
      exact ⟨h.opened, h.closed, h.drawn, h.run_accepted,
        fun timer ht => h.timer_accepted timer (List.mem_of_mem_filter ht),
        fun timer ht => h.timer_lt timer (List.mem_of_mem_filter ht),
        h.timer_inj.sublist (List.filter_sublist.map Prod.fst), h.active_iff, h.key_inj⟩

/-- A refusal belongs to no turn. -/
theorem turnLog_reject (h : TurnLog env w) (requestId code message : JsString) :
    TurnLog env (w.send env (sessionReject requestId code message)) := by
  have hframes : ∀ id, turnFrames (w.send env (sessionReject requestId code message)) id =
      turnFrames w id := by
    intro id
    rw [turnFrames_append (w := w) rfl, framesOf_reject, List.append_nil]
  have haccepted : ∀ id, Accepted (w.send env (sessionReject requestId code message)) id ↔
      Accepted w id := fun id => by rw [Accepted, hframes, Accepted]
  refine ⟨fun id t ht => (hframes id).trans (h.opened id t ht), ?_, ?_,
    fun r hr => (haccepted _).mpr (h.run_accepted r hr),
    fun timer ht => (haccepted _).mpr (h.timer_accepted timer ht), h.timer_lt, h.timer_inj,
    h.active_iff, h.key_inj⟩
  · intro id hnone hacc
    obtain ⟨n, hn⟩ := h.closed id hnone ((haccepted id).mp hacc)
    exact ⟨n, (hframes id).trans hn⟩
  · intro id hacc
    obtain ⟨n, hn, hid⟩ := h.drawn id ((haccepted id).mp hacc)
    exact ⟨n, Nat.lt_succ_of_lt hn, hid⟩

/-! #### A turn begins -/

theorem turnLog_start : TurnLog env SessionWorld.start where
  opened := fun _ _ ht => nomatch ht
  closed := fun _ _ hacc => absurd rfl hacc
  drawn := fun _ hacc => absurd rfl hacc
  run_accepted := fun _ hr => nomatch hr
  timer_accepted := fun _ ht => nomatch ht
  timer_lt := fun _ ht => nomatch ht
  timer_inj := List.nodup_nil
  active_iff := fun _ => iff_of_false List.not_mem_nil fun ⟨_, _, ht, _⟩ => nomatch ht
  key_inj := fun _ _ _ _ ht => nomatch ht

section Fresh

variable (hinj : Function.Injective env.turnId)
include hinj

/-- The id of a turn that begins has not been sent before. -/
theorem TurnLog.fresh (h : TurnLog env w) : turnFrames w (env.turnId w.draws) = [] := by
  by_contra hacc
  obtain ⟨n, hn, hid⟩ := h.drawn _ hacc
  exact absurd (hinj hid) (Nat.ne_of_gt hn)

theorem turnLog_opened (ho : Owned env w) (h : TurnLog env w) (req : TurnStart)
    (target : SessionTarget) (registered : Bool) (hfree : sessionKey target ∉ w.active) :
    TurnLog env (opened env w req target registered) := by
  have hframes : ∀ id, turnFrames (opened env w req target registered) id =
      turnFrames w id ++ if id = env.turnId w.draws then [acceptFrame] else [] := by
    intro id
    rw [turnFrames_append (w := w) rfl, framesOf_accept]
  have haccepted : ∀ id, Accepted (opened env w req target registered) id ↔
      id = env.turnId w.draws ∨ Accepted w id := by
    intro id
    rw [Accepted, hframes]
    by_cases hid : id = env.turnId w.draws
    · simp [hid]
    · simp [hid, Accepted]
  have hkeys : ∀ id t, w.getTurn id = some t → t.key ≠ sessionKey target := by
    intro id t ht hkey
    exact hfree ((h.active_iff _).mpr ⟨id, t, ht, hkey⟩)
  refine ⟨?_, ?_, ?_, ?_, ?_, ?_, ?_, ?_, ?_⟩
  · intro id t ht
    rw [getTurn_opened] at ht
    split at ht
    · rename_i hid
      obtain rfl := Option.some.inj ht
      rw [hframes, hid, h.fresh hinj, if_pos rfl]
      rfl
    · rename_i hid
      rw [hframes, if_neg hid, List.append_nil, h.opened id t ht]
  · intro id hnone hacc
    rw [getTurn_opened] at hnone
    split at hnone
    · exact absurd hnone nofun
    · rename_i hid
      obtain ⟨n, hn⟩ := h.closed id hnone (((haccepted id).mp hacc).resolve_left hid)
      exact ⟨n, by rw [hframes, if_neg hid, List.append_nil, hn]⟩
  · intro id hacc
    rcases (haccepted id).mp hacc with hid | hold
    · exact ⟨w.draws, Nat.lt_add_of_pos_right Nat.zero_lt_two, hid⟩
    · obtain ⟨n, hn, hid⟩ := h.drawn id hold
      exact ⟨n, Nat.lt_add_right 2 hn, hid⟩
  · intro r hr
    rcases List.mem_cons.mp hr with rfl | hr
    · exact (haccepted _).mpr (Or.inl rfl)
    · exact (haccepted _).mpr (Or.inr (h.run_accepted r hr))
  · intro timer ht
    rcases List.mem_append.mp ht with ht | ht
    · exact (haccepted _).mpr (Or.inr (h.timer_accepted timer ht))
    · rw [List.mem_singleton.mp ht]
      exact (haccepted _).mpr (Or.inl rfl)
  · intro timer ht
    show timer.1 < w.nextTimer + 1
    rcases List.mem_append.mp ht with ht | ht
    · exact Nat.lt_succ_of_lt (h.timer_lt timer ht)
    · rw [List.mem_singleton.mp ht]
      exact Nat.lt_succ_self _
  · show ((w.timers ++ [(w.nextTimer, env.turnId w.draws)]).map Prod.fst).Nodup
    rw [List.map_append, List.nodup_append]
    refine ⟨h.timer_inj, List.nodup_singleton _, ?_⟩
    intro a ha b hb
    obtain ⟨timer, ht, rfl⟩ := List.mem_map.mp ha
    rw [List.mem_singleton.mp hb]
    exact Nat.ne_of_lt (h.timer_lt timer ht)
  · intro key
    show key ∈ sessionKey target :: w.active ↔ _
    rw [List.mem_cons, h.active_iff]
    constructor
    · rintro (rfl | ⟨id, t, ht, hkey⟩)
      · exact ⟨_, newTurn env w target, by rw [getTurn_opened, if_pos rfl], rfl⟩
      · refine ⟨id, t, ?_, hkey⟩
        rw [getTurn_opened, if_neg, ht]
        rintro rfl
        exact absurd ((ho.fresh hinj).symm.trans ht) nofun
    · rintro ⟨id, t, ht, hkey⟩
      rw [getTurn_opened] at ht
      split at ht
      · obtain rfl := Option.some.inj ht
        exact Or.inl hkey.symm
      · exact Or.inr ⟨id, t, ht, hkey⟩
  · intro id id' t t' ht ht' hkey
    rw [getTurn_opened] at ht ht'
    split at ht
    · rename_i hid
      obtain rfl := Option.some.inj ht
      split at ht'
      · rename_i hid'
        exact hid.trans hid'.symm
      · exact absurd hkey.symm (hkeys id' t' ht')
    · split at ht'
      · obtain rfl := Option.some.inj ht'
        exact absurd hkey (hkeys id t ht)
      · exact h.key_inj id id' t t' ht ht' hkey

theorem turnLog_failed (ho : Owned env w) (h : TurnLog env w) (req : TurnStart)
    (target : SessionTarget) (message : JsString) (hfree : sessionKey target ∉ w.active) :
    TurnLog env (failed env w req target message) := by
  have hframes : ∀ id, turnFrames (failed env w req target message) id =
      turnFrames w id ++ if id = env.turnId w.draws then [acceptFrame, resultFrame] else [] := by
    intro id
    rw [turnFrames_append (w := begun env w req target) rfl, turnFrames_append (w := w) rfl,
      framesOf_accept, framesOf_result, List.append_assoc]
    split
    · rfl
    · rfl
  have haccepted : ∀ id, Accepted (failed env w req target message) id ↔
      id = env.turnId w.draws ∨ Accepted w id := by
    intro id
    rw [Accepted, hframes]
    by_cases hid : id = env.turnId w.draws
    · simp [hid]
    · simp [hid, Accepted]
  refine ⟨?_, ?_, ?_, fun r hr => (haccepted _).mpr (Or.inr (h.run_accepted r hr)),
    fun timer ht => (haccepted _).mpr (Or.inr (h.timer_accepted timer ht)), h.timer_lt,
    h.timer_inj, ?_, h.key_inj⟩
  · intro id t ht
    have hid : id ≠ env.turnId w.draws := by
      rintro rfl
      exact absurd ((ho.fresh hinj).symm.trans ht) nofun
    rw [hframes, if_neg hid, List.append_nil, h.opened id t ht]
  · intro id hnone hacc
    by_cases hid : id = env.turnId w.draws
    · exact ⟨0, by rw [hframes, if_pos hid, hid, h.fresh hinj]; rfl⟩
    · obtain ⟨n, hn⟩ := h.closed id hnone (((haccepted id).mp hacc).resolve_left hid)
      exact ⟨n, by rw [hframes, if_neg hid, List.append_nil, hn]⟩
  · intro id hacc
    rcases (haccepted id).mp hacc with hid | hold
    · exact ⟨w.draws, Nat.lt_add_of_pos_right (Nat.zero_lt_succ 2), hid⟩
    · obtain ⟨n, hn, hid⟩ := h.drawn id hold
      exact ⟨n, Nat.lt_add_right 3 hn, hid⟩
  · intro key
    show key ∈ (sessionKey target :: w.active).filter (fun k => k ≠ sessionKey target) ↔
      ∃ id t, w.getTurn id = some t ∧ t.key = key
    rw [List.mem_filter, List.mem_cons, decide_eq_true_iff, ← h.active_iff]
    constructor
    · rintro ⟨hkey | hkey, hne⟩
      · exact absurd hkey hne
      · exact hkey
    · intro hkey
      refine ⟨Or.inr hkey, ?_⟩
      rintro rfl
      exact hfree hkey

theorem turnLog_acceptTurn (ho : Owned env w) (h : TurnLog env w) (req : TurnStart)
    (target : SessionTarget) (reply : RunnerReply) (hfree : sessionKey target ∉ w.active) :
    TurnLog env (acceptTurn env w req target reply) := by
  rcases acceptTurn_fresh hinj ho req target reply with
    ⟨-, heq⟩ | ⟨message, -, heq⟩ | ⟨message, -, heq⟩
  · rw [heq]
    exact turnLog_opened hinj ho h req target true hfree
  · rw [heq]
    exact turnLog_finalize (turnLog_opened hinj ho h req target false hfree) _ _ _ _
  · rw [heq]
    exact turnLog_failed hinj ho h req target message hfree

theorem turnLog_step (h : Owned env w ∧ TurnLog env w) (act : SessionAction) :
    Owned env (w.step env act) ∧ TurnLog env (w.step env act) := by
  refine step_keeps (I := fun w => Owned env w ∧ TurnLog env w) ?_ ?_ ?_ act h
  · intro w w' hmove h
    exact ⟨owned_of_descends h.1 (descends_move hmove), turnLog_move h.2 hmove⟩
  · intro w requestId code message h
    exact ⟨owned_send h.1 _, turnLog_reject h.2 requestId code message⟩
  · intro w req t reply _ hfree h
    exact ⟨owned_acceptTurn hinj h.1 req t reply,
      turnLog_acceptTurn hinj h.1 h.2 req t reply hfree⟩

theorem turnLog_run (acts : List SessionAction) :
    Owned env (SessionWorld.runFrom env acts) ∧ TurnLog env (SessionWorld.runFrom env acts) :=
  Machine.run_invariant_all (SessionWorld.step env) (I := fun w => Owned env w ∧ TurnLog env w)
    (fun _ act h => turnLog_step hinj h act) ⟨ownedRuns_start, turnLog_start⟩ acts

end Fresh

/-! ### A turn that has ended -/

/-- The turn is not open and has sent this. -/
structure Ended (env : SessionEnv) (id : JsString) (frames : List TurnFrame) (w : SessionWorld) :
    Prop where
  drawn : ∃ n < w.draws, id = env.turnId n
  gone : w.getTurn id = none
  frames : turnFrames w id = frames

variable {id : JsString} {frames : List TurnFrame}

/-- A move of another turn. -/
theorem ended_of_sent (h : Ended env id frames w) (hdraws : w.draws ≤ w'.draws)
    (hgone : w'.getTurn id = none) {msgs : List JsObject} (hsent : w'.sent = w.sent ++ msgs)
    (hmsgs : framesOf id msgs = []) : Ended env id frames w' := by
  obtain ⟨n, hn, hid⟩ := h.drawn
  refine ⟨⟨n, Nat.lt_of_lt_of_le hn hdraws, hid⟩, hgone, ?_⟩
  rw [turnFrames_append hsent, hmsgs, List.append_nil, h.frames]

theorem Ended.ne_of_getTurn (h : Ended env id frames w) {k : JsString} {t : TurnState}
    (ht : w.getTurn k = some t) : id ≠ k := by
  rintro rfl
  exact absurd (h.gone.symm.trans ht) nofun

theorem ended_finalize (h : Ended env id frames w) (k : JsString) (status : TurnStatus)
    (message : JsString) (handle : Option JsString) :
    Ended env id frames (finalize env w k status message handle) := by
  cases ht : w.getTurn k with
  | none => rwa [finalize_of_none ht]
  | some t =>
      have hdesc := @descends_finalize env w k status message handle
      refine ended_of_sent h hdesc.draws (hdesc.getTurn_none h.gone) (by rw [finalize_of_some ht]) ?_
      rw [framesOf_result, if_neg (h.ne_of_getTurn ht)]

theorem ended_move (h : Ended env id frames w) (hmove : SessionMove env w w') :
    Ended env id frames w' := by
  have hdesc := descends_move hmove
  cases hmove with
  | event _ _ _ ht ev =>
      refine ended_of_sent h hdesc.draws (hdesc.getTurn_none h.gone)
        (by rw [(advances_handleRunEvent ht ev).frame]) ?_
      rw [framesOf_event, if_neg (h.ne_of_getTurn ht)]
  | done _ _ result forkHandle =>
      exact ended_finalize (w := { w with ended := _ :: w.ended }) ⟨h.drawn, h.gone, h.frames⟩ _ _ _ _
  | ack ht ackSeq =>
      exact ended_of_sent h hdesc.draws (hdesc.getTurn_none h.gone)
        (by rw [(advances_handleAck ht ackSeq).frame]) rfl
  | cancel ht => exact ⟨h.drawn, h.gone, h.frames⟩
  | finalize _ status message => exact ended_finalize h _ _ _ _
  | expire timer => exact ⟨h.drawn, h.gone, h.frames⟩

section Fresh

variable (hinj : Function.Injective env.turnId)
include hinj

theorem Ended.ne_fresh (h : Ended env id frames w) : id ≠ env.turnId w.draws := by
  obtain ⟨n, hn, hid⟩ := h.drawn
  rw [hid]
  exact fun hc => Nat.ne_of_lt hn (hinj hc)

theorem ended_opened (h : Ended env id frames w) (req : TurnStart) (target : SessionTarget)
    (registered : Bool) : Ended env id frames (opened env w req target registered) := by
  have hne := h.ne_fresh hinj
  refine ended_of_sent h (Nat.le_add_right ..) ?_ rfl ?_
  · rw [getTurn_opened, if_neg hne, h.gone]
  · rw [framesOf_accept, if_neg hne]

theorem ended_acceptTurn (ho : Owned env w) (h : Ended env id frames w) (req : TurnStart)
    (target : SessionTarget) (reply : RunnerReply) :
    Ended env id frames (acceptTurn env w req target reply) := by
  rcases acceptTurn_fresh hinj ho req target reply with
    ⟨-, heq⟩ | ⟨message, -, heq⟩ | ⟨message, -, heq⟩
  · rw [heq]
    exact ended_opened hinj h req target true
  · rw [heq]
    exact ended_finalize (ended_opened hinj h req target false) _ _ _ _
  · have hne := h.ne_fresh hinj
    have hbegun : Ended env id frames (begun env w req target) := by
      refine ended_of_sent h (Nat.le_add_right ..) h.gone rfl ?_
      rw [framesOf_accept, if_neg hne]
    rw [heq]
    refine ended_of_sent hbegun (Nat.le_succ _) h.gone rfl ?_
    rw [framesOf_result, if_neg hne]

/-- **A turn that has ended sends nothing more.** -/
theorem endedTurn_run (ho : Owned env w) (h : Ended env id frames w) (acts : List SessionAction) :
    Ended env id frames (Machine.run (SessionWorld.step env) w acts) := by
  refine (Machine.run_invariant_all (SessionWorld.step env)
    (I := fun w => Owned env w ∧ Ended env id frames w) ?_ ⟨ho, h⟩ acts).2
  intro w act h
  refine ⟨owned_step hinj h.1 act, (step_keeps
    (I := fun w => Owned env w ∧ Ended env id frames w) ?_ ?_ ?_ act h).2⟩
  · intro w w' hmove h
    exact ⟨owned_of_descends h.1 (descends_move hmove), ended_move h.2 hmove⟩
  · intro w requestId code message h
    exact ⟨owned_send h.1 _, ended_of_sent h.2 (Nat.le_succ _) h.2.gone rfl (framesOf_reject ..)⟩
  · intro w req t reply _ _ h
    exact ⟨owned_acceptTurn hinj h.1 req t reply, ended_acceptTurn hinj h.1 h.2 req t reply⟩

end Fresh

/-! ### What ends a turn -/

theorem getTurn_giveUp (id : JsString) (status : TurnStatus) (message : JsString)
    (sync : List SessionCallback) : (giveUp env w id status message sync).getTurn id = none := by
  unfold giveUp
  cases ht : w.getTurn id with
  | none => exact ht
  | some t => rw [getTurn_finalize, if_pos rfl]

theorem getTurn_cancelTurns (sync : JsString → List SessionCallback) {ids : List JsString}
    {id : JsString} (hid : id ∈ ids) : (cancelTurns env sync w ids).getTurn id = none := by
  induction ids generalizing w with
  | nil => exact absurd hid List.not_mem_nil
  | cons k rest ih =>
      rcases List.mem_cons.mp hid with rfl | hid
      · exact (descends_moves (moves_cancelTurns sync rest)).getTurn_none (getTurn_giveUp ..)
      · exact ih hid

/-- No turn is left when the connection has ended. -/
theorem getTurn_close (sync : JsString → List SessionCallback) (id : JsString) :
    (cancelActiveTurns env w sync).getTurn id = none := by
  cases ht : w.getTurn id with
  | none => exact (descends_moves (moves_cancelTurns sync _)).getTurn_none ht
  | some t =>
      obtain ⟨hmem, hkey⟩ := Table.find?_eq_some.mp ht
      exact getTurn_cancelTurns sync (List.mem_map.mpr ⟨t, hmem, hkey⟩)

theorem getTurn_timeout {timer : TimerId} {id : JsString} (ht : (timer, id) ∈ w.timers)
    (hnodup : (w.timers.map Prod.fst).Nodup) (sync : List SessionCallback) :
    (onTimeout env w timer sync).getTurn id = none := by
  have hfind : (w.timers.find? fun t => t.1 = timer) = some (timer, id) := by
    cases hfind : w.timers.find? fun t => t.1 = timer with
    | none => exact absurd (decide_eq_true rfl) (List.find?_eq_none.mp hfind _ ht)
    | some t =>
        have heq : t.1 = timer := by simpa using List.find?_some hfind
        rw [List.inj_on_of_nodup_map hnodup (List.mem_of_find?_eq_some hfind) ht heq]
  unfold onTimeout
  rw [hfind]
  exact getTurn_giveUp ..

/-- A turn whose run does not start is not on record. -/
theorem getTurn_throws (hinj : Function.Injective env.turnId) (ho : Owned env w) (req : TurnStart)
    (target : SessionTarget) {reply : RunnerReply} (hreply : reply ≠ .runs) :
    (acceptTurn env w req target reply).getTurn (env.turnId w.draws) = none := by
  rcases acceptTurn_fresh hinj ho req target reply with
    ⟨hruns, -⟩ | ⟨message, -, heq⟩ | ⟨message, -, heq⟩
  · exact absurd hruns hreply
  · rw [heq, getTurn_finalize, if_pos rfl]
  · rw [heq]
    exact ho.fresh hinj

/-! ### Requests and replies -/

/-- The request a message accepts or refuses. -/
def replyTo (msg : JsObject) : Option JsValue :=
  match msg.get (js "type") with
  | .str type =>
      if type = js "session.resume.accept" ∨ type = js "session.resume.reject" then
        some (msg.get (js "request_id"))
      else none
  | _ => none

def requestOf : SessionAction → Option JsValue
  | .start req _ _ => some (.str req.requestId)
  | _ => none

def replies (w : SessionWorld) : List JsValue := w.sent.filterMap replyTo

theorem replies_append {msgs : List JsObject} (h : w'.sent = w.sent ++ msgs) :
    replies w' = replies w ++ msgs.filterMap replyTo := by
  rw [replies, h, List.filterMap_append, replies]

theorem replies_finalize (id : JsString) (status : TurnStatus) (message : JsString)
    (handle : Option JsString) :
    replies (finalize env w id status message handle) = replies w := by
  cases ht : w.getTurn id with
  | none => rw [finalize_of_none ht]
  | some t =>
      rw [replies_append (w := w) (by rw [finalize_of_some ht])]
      exact List.append_nil _

theorem replies_move (hmove : SessionMove env w w') : replies w' = replies w := by
  cases hmove with
  | event _ _ _ ht ev =>
      rw [replies_append (w := w) (by rw [(advances_handleRunEvent ht ev).frame])]
      exact List.append_nil _
  | done _ _ result forkHandle => exact replies_finalize (w := { w with ended := _ :: w.ended }) _ _ _ _
  | ack ht ackSeq =>
      rw [replies_append (w := w) (by rw [(advances_handleAck ht ackSeq).frame])]
      exact List.append_nil _
  | cancel ht => rfl
  | finalize _ status message => exact replies_finalize _ _ _ _
  | expire timer => rfl

theorem replies_acceptTurn (req : TurnStart) (target : SessionTarget) (reply : RunnerReply) :
    replies (acceptTurn env w req target reply) = replies w ++ [.str req.requestId] := by
  have hbegun : replies (begun env w req target) = replies w ++ [.str req.requestId] :=
    @replies_append w (begun env w req target) _ rfl
  rcases @acceptTurn_cases env w req target reply with
    ⟨-, heq⟩ | ⟨message, -, heq⟩ | ⟨message, -, ⟨s, -, heq⟩ | ⟨-, heq⟩⟩
  · rw [heq]
    exact hbegun
  · rw [heq, replies_finalize]
    exact hbegun
  · rw [heq, replies_finalize]
    exact hbegun
  · rw [heq, replies_append (w := begun env w req target) rfl, hbegun]
    exact List.append_nil _

/-- **A request is answered at once and once; nothing else is an answer.** -/
theorem replies_step (act : SessionAction) :
    replies (w.step env act) = replies w ++ (requestOf act).toList := by
  have hkept : ∀ w', SessionMoves env w w' → replies w' = replies w ++ [] := by
    intro w' hmoves
    rw [List.append_nil]
    exact hmoves.keeps (I := fun w' => replies w' = replies w)
      (fun _ _ hmove h => (replies_move hmove).trans h) rfl
  cases act with
  | start req target reply =>
      show replies (startTurn env w req target reply) = _
      rcases @startTurn_cases env w req target reply with
        ⟨code, message, heq⟩ | ⟨t, -, -, -, heq⟩
      · rw [heq]
        exact @replies_append w (w.send env _) _ rfl
      · rw [heq]
        exact replies_acceptTurn req t reply
  | cancel id => exact hkept _ (step_moves nofun)
  | ack id ackSeq => exact hkept _ (step_moves nofun)
  | callback run cb => exact hkept _ (step_moves nofun)
  | timeout timer sync => exact hkept _ (step_moves nofun)
  | close sync => exact hkept _ (step_moves nofun)

theorem replies_run (acts : List SessionAction) :
    replies (Machine.run (SessionWorld.step env) w acts) = replies w ++ acts.filterMap requestOf := by
  induction acts generalizing w with
  | nil => exact (List.append_nil _).symm
  | cons act rest ih =>
      rw [Machine.run_cons, ih, replies_step, List.append_assoc]
      cases h : requestOf act with
      | none => rw [List.filterMap_cons_none h, Option.toList_none, List.nil_append]
      | some v => rw [List.filterMap_cons_some h, Option.toList_some, List.singleton_append]

/-! ### The protocol -/

/-- What every run of the manager shows.  A turn is named by its id; `Closed` says that its
result is there and is its last message. -/
structure SessionProtocol (env : SessionEnv) (acts : List SessionAction) : Prop where
  /-- The mutex is held for the sessions with an open turn, and a session has one at most. -/
  active : ∀ key, key ∈ (SessionWorld.runFrom env acts).active ↔
    ∃ t ∈ (SessionWorld.runFrom env acts).turns.rows, t.key = key
  one_turn : ∀ t ∈ (SessionWorld.runFrom env acts).turns.rows,
    ∀ t' ∈ (SessionWorld.runFrom env acts).turns.rows, t.key = t'.key → t = t'
  /-- One answer for each request, in the order of the requests. -/
  answers : replies (SessionWorld.runFrom env acts) = acts.filterMap requestOf
  stream : ∀ id, TurnStream (turnFrames (SessionWorld.runFrom env acts) id)
  /-- A turn has its result unless it is open. -/
  result : ∀ id, Accepted (SessionWorld.runFrom env acts) id →
    Closed (SessionWorld.runFrom env acts) id ∨
      ∃ t ∈ (SessionWorld.runFrom env acts).turns.rows, t.turnId = id ∧
        turnFrames (SessionWorld.runFrom env acts) id = openFrames t.sentSeq
  done : ∀ r ∈ (SessionWorld.runFrom env acts).runs,
    r.id ∈ (SessionWorld.runFrom env acts).ended → Closed (SessionWorld.runFrom env acts) r.turnId
  timed_out : ∀ pre timer sync post id, acts = pre ++ .timeout timer sync :: post →
    (timer, id) ∈ (SessionWorld.runFrom env pre).timers →
    Closed (SessionWorld.runFrom env acts) id
  failed : ∀ pre req target reply post, acts = pre ++ .start req (some target) reply :: post →
    (planFor env target.engine).runner = true →
    sessionKey target ∉ (SessionWorld.runFrom env pre).active → reply ≠ .runs →
    Closed (SessionWorld.runFrom env acts) (env.turnId (SessionWorld.runFrom env pre).draws)
  /-- The end of a connection closes every turn accepted before, and none of them sends anything
  after it. -/
  disconnected : ∀ pre sync post id, acts = pre ++ .close sync :: post →
    Accepted (SessionWorld.runFrom env pre) id →
    Closed (SessionWorld.runFrom env acts) id ∧
      turnFrames (SessionWorld.runFrom env acts) id =
        turnFrames (SessionWorld.runFrom env (pre ++ [.close sync])) id

/-- A turn that is accepted and not open any more is closed, and stays as it is. -/
theorem closed_of_gone (hinj : Function.Injective env.turnId) {acts : List SessionAction}
    {id : JsString} (hacc : Accepted (SessionWorld.runFrom env acts) id)
    (hgone : (SessionWorld.runFrom env acts).getTurn id = none) (post : List SessionAction) :
    Closed (SessionWorld.runFrom env (acts ++ post)) id ∧
      turnFrames (SessionWorld.runFrom env (acts ++ post)) id =
        turnFrames (SessionWorld.runFrom env acts) id := by
  obtain ⟨howned, hlog⟩ := turnLog_run hinj acts
  obtain ⟨n, hn⟩ := hlog.closed id hgone hacc
  have hended : Ended env id _ (SessionWorld.runFrom env acts) := ⟨hlog.drawn id hacc, hgone, rfl⟩
  have hlater := (endedTurn_run hinj howned hended post).frames
  rw [SessionWorld.runFrom, Machine.run_append]
  exact ⟨⟨n, hlater.trans hn⟩, hlater⟩

theorem sessionRun_snoc (acts : List SessionAction) (act : SessionAction) :
    SessionWorld.runFrom env (acts ++ [act]) = (SessionWorld.runFrom env acts).step env act := by
  rw [SessionWorld.runFrom, Machine.run_append]
  rfl

theorem sent_finalize (id : JsString) (status : TurnStatus) (message : JsString)
    (handle : Option JsString) :
    w.sent <+: (finalize env w id status message handle).sent := by
  cases ht : w.getTurn id with
  | none => rw [finalize_of_none ht]
  | some t =>
      rw [finalize_of_some ht]
      exact List.prefix_append ..

theorem sent_move (hmove : SessionMove env w w') : w.sent <+: w'.sent := by
  cases hmove with
  | event _ _ _ ht ev =>
      rw [(advances_handleRunEvent ht ev).frame]
      exact List.prefix_append ..
  | done _ _ result forkHandle => exact sent_finalize (w := { w with ended := _ :: w.ended }) _ _ _ _
  | ack ht ackSeq =>
      rw [(advances_handleAck ht ackSeq).frame]
      exact List.prefix_append ..
  | cancel ht => exact List.prefix_refl _
  | finalize _ status message => exact sent_finalize _ _ _ _
  | expire timer => exact List.prefix_refl _

theorem sent_acceptTurn (req : TurnStart) (target : SessionTarget) (reply : RunnerReply) :
    (begun env w req target).sent <+: (acceptTurn env w req target reply).sent := by
  rcases @acceptTurn_cases env w req target reply with
    ⟨-, heq⟩ | ⟨message, -, heq⟩ | ⟨message, -, ⟨s, -, heq⟩ | ⟨-, heq⟩⟩
  · rw [heq]
    exact List.prefix_refl _
  · rw [heq]
    exact sent_finalize (w := opened env w req target false) _ _ _ _
  · rw [heq]
    exact sent_finalize _ _ _ _
  · rw [heq]
    exact List.prefix_append ..

theorem sent_step (act : SessionAction) : w.sent <+: (w.step env act).sent := by
  refine step_keeps (I := fun w' => w.sent <+: w'.sent) ?_ ?_ ?_ act (List.prefix_refl _)
  · intro w₁ w₂ hmove h
    exact h.trans (sent_move hmove)
  · intro w₁ requestId code message h
    exact h.trans (List.prefix_append ..)
  · intro w₁ req t reply _ _ h
    exact h.trans ((List.prefix_append ..).trans (sent_acceptTurn req t reply))

/-- What a turn has sent is not taken back. -/
theorem accepted_of_prefix {id : JsString} (h : Accepted w id) (hsent : w.sent <+: w'.sent) :
    Accepted w' id := by
  obtain ⟨msgs, hmsgs⟩ := hsent
  rw [Accepted, turnFrames_append hmsgs.symm]
  exact List.append_ne_nil_of_left_ne_nil h _

theorem accepted_acceptTurn (req : TurnStart) (target : SessionTarget) (reply : RunnerReply) :
    Accepted (acceptTurn env w req target reply) (env.turnId w.draws) := by
  refine accepted_of_prefix ?_ (sent_acceptTurn req target reply)
  rw [Accepted, turnFrames_append (w := w) rfl, framesOf_accept, if_pos rfl]
  exact List.append_ne_nil_of_right_ne_nil _ (List.cons_ne_nil _ _)

/-- **The protocol of a turn.** -/
theorem session_protocol (env : SessionEnv) (hinj : Function.Injective env.turnId)
    (acts : List SessionAction) : SessionProtocol env acts := by
  obtain ⟨howned, hlog⟩ := turnLog_run hinj acts
  have hfound : ∀ {id t}, (SessionWorld.runFrom env acts).getTurn id = some t ↔
      t ∈ (SessionWorld.runFrom env acts).turns.rows ∧ t.turnId = id := Table.find?_eq_some
  -- What has happened to a turn when it went.
  have hclosed : ∀ pre act post id, acts = pre ++ act :: post →
      Accepted (SessionWorld.runFrom env (pre ++ [act])) id →
      (SessionWorld.runFrom env (pre ++ [act])).getTurn id = none →
      Closed (SessionWorld.runFrom env acts) id ∧ turnFrames (SessionWorld.runFrom env acts) id =
        turnFrames (SessionWorld.runFrom env (pre ++ [act])) id := by
    rintro pre act post id rfl hacc hgone
    rw [List.append_cons]
    exact closed_of_gone hinj hacc hgone post
  refine ⟨?_, ?_, replies_run acts, ?_, ?_, ?_, ?_, ?_, ?_⟩
  · intro key
    rw [hlog.active_iff]
    constructor
    · rintro ⟨id, t, ht, hkey⟩
      exact ⟨t, (hfound.mp ht).1, hkey⟩
    · rintro ⟨t, ht, hkey⟩
      exact ⟨t.turnId, t, hfound.mpr ⟨ht, rfl⟩, hkey⟩
  · intro t ht t' ht' hkey
    have hs := hfound.mpr ⟨ht, rfl⟩
    have hs' := hfound.mpr ⟨ht', rfl⟩
    rw [hlog.key_inj _ _ t t' hs hs' hkey, hs'] at hs
    exact (Option.some.inj hs).symm
  · intro id
    cases ht : (SessionWorld.runFrom env acts).getTurn id with
    | some t =>
        rw [hlog.opened id t ht]
        exact .opened _
    | none =>
        by_cases hacc : Accepted (SessionWorld.runFrom env acts) id
        · obtain ⟨n, hn⟩ := hlog.closed id ht hacc
          rw [hn]
          exact .closed n
        · rw [Accepted, not_not] at hacc
          rw [hacc]
          exact .silent
  · intro id hacc
    cases ht : (SessionWorld.runFrom env acts).getTurn id with
    | some t => exact Or.inr ⟨t, (hfound.mp ht).1, (hfound.mp ht).2, hlog.opened id t ht⟩
    | none => exact Or.inl (hlog.closed id ht hacc)
  · intro r hr hended
    exact hlog.closed _ (howned.ended_closed r hr hended) (hlog.run_accepted r hr)
  · intro pre timer sync post id hacts htimer
    obtain ⟨-, hpre⟩ := turnLog_run hinj pre
    refine (hclosed pre _ post id hacts ?_ ?_).1
    · rw [sessionRun_snoc]
      exact accepted_of_prefix (hpre.timer_accepted _ htimer) (sent_step _)
    · rw [sessionRun_snoc]
      exact getTurn_timeout htimer hpre.timer_inj sync
  · intro pre req target reply post hacts hrunner hfree hreply
    obtain ⟨hpre, -⟩ := turnLog_run hinj pre
    have hstep : SessionWorld.runFrom env (pre ++ [.start req (some target) reply]) =
        acceptTurn env (SessionWorld.runFrom env pre) req target reply :=
      (sessionRun_snoc ..).trans (startTurn_accepts hrunner hfree req reply)
    refine (hclosed pre _ post _ hacts ?_ ?_).1
    · rw [hstep]
      exact accepted_acceptTurn req target reply
    · rw [hstep]
      exact getTurn_throws hinj hpre req target hreply
  · intro pre sync post id hacts hacc
    refine hclosed pre _ post id hacts ?_ ?_
    · rw [sessionRun_snoc]
      exact accepted_of_prefix hacc (sent_step _)
    · rw [sessionRun_snoc]
      exact getTurn_close sync id

/-- A turn that times out while its run emits, a second one for the session, one refused while
it is open, and the end of the connection. -/
def sampleTurns : List SessionAction :=
  [sampleStart "a" .claude, .callback 0 sampleUsage, .timeout 0 [sampleUsage],
    sampleStart "b" .claude, sampleStart "c" .claude, .callback 0 sampleUsage,
    .callback 1 sampleUsage, .close fun _ => []]

theorem session_protocol_sample : Function.Injective (sampleSessions 2).turnId ∧
    SessionProtocol (sampleSessions 2) sampleTurns :=
  ⟨sampleSessions_injective 2,
    session_protocol (sampleSessions 2) (sampleSessions_injective 2) sampleTurns⟩

end HuginAgent
