/-
How much can be outstanding.

A cap is looked at after an event is stored, so the event that reaches it is stored
too: an attempt may hold its last event over its cap, and the connection the last event
of each attempt that does not go on by itself.  `Contained` is the invariant behind the
bound.  An attempt is open when its run may send the next event, and what it holds then
counts in full; of an attempt that is paused or has no run any more the last event does
not count.
-/
import Mathlib.Algebra.BigOperators.Ring.Finset
import Mathlib.Algebra.Order.BigOperators.Group.Finset
import HuginAgent.Jobs.Backpressure
import HuginAgent.Jobs.Ownership
import HuginAgent.Ledger.Stream

namespace HuginAgent

open JobManager Ledger

variable {env : Env} {w : World} {a : JsString} {r : Ref}

/-! ### Sizes -/

def totalSize (rows : List EventRow) : Nat := (rows.map EventRow.bytes).sum

/-- The size of the last event that is stored, nothing where none is. -/
def lastSize (rows : List EventRow) : Nat := (rows.getLast?.map EventRow.bytes).getD 0

/-- The attempts that have stored events. -/
def EventLog.streaming (s : EventLog) : Finset JsString :=
  (s.events.rows.map EventRow.attemptId).toFinset

structure BackpressureBound (env : Env) (w : World) : Prop where
  events : ∀ a, w.store.unackedEvents a ≤ env.caps.events
  bytes : ∀ a, w.store.unackedBytes a < env.caps.bytes + lastSize (w.store.eventRowsOf a)
  conn : w.store.connUnackedBytes <
    env.caps.conn + ∑ a ∈ w.store.streaming, lastSize (w.store.eventRowsOf a)

/-- The engine sends nothing while it is paused, and a run starts with nothing stored. -/
def HonoursPause (env : Env) (w : World) : Action → Prop
  | .callback r (.event _) => stopped w r = false
  | .assign msg reply => accepts env w msg reply = true → w.store.unackedEvents msg.attemptId = 0
  | _ => True

instance : ∀ (env : Env) (w : World) (act : Action), Decidable (HonoursPause env w act)
  | _, w, .callback r (.event _) => inferInstanceAs (Decidable (stopped w r = false))
  | env, w, .assign msg reply => inferInstanceAs (Decidable
      (accepts env w msg reply = true → w.store.unackedEvents msg.attemptId = 0))
  | _, _, .callback _ (.approval _) | _, _, .callback _ (.done _) | _, _, .streamAck _
  | _, _, .resultAck _ | _, _, .cancel _ | _, _, .approvalResponse _ | _, _, .leaseGranted _
  | _, _, .revoke .. | _, _, .resume .. | _, _, .timer _ | _, _, .tick _ | _, _, .restart =>
      .isTrue trivial

theorem totalSize_append (l l' : List EventRow) :
    totalSize (l ++ l') = totalSize l + totalSize l' := by
  simp [totalSize]

theorem totalSize_le {l l' : List EventRow} (h : l.Sublist l') : totalSize l ≤ totalSize l' :=
  (h.map _).sum_le_sum fun _ _ => Nat.zero_le _

theorem totalSize_eq (l : List EventRow) : totalSize l = totalSize l.dropLast + lastSize l := by
  rcases List.eq_nil_or_concat l with rfl | ⟨init, e, rfl⟩
  · rfl
  · rw [List.concat_eq_append, List.dropLast_concat, totalSize_append]
    simp [lastSize, totalSize]

/-- What is left of a sublist without its last element is left of the list without its own. -/
theorem dropLast_sublist {l l' : List EventRow} (h : l.Sublist l') :
    l.dropLast.Sublist l'.dropLast := by
  rw [← List.reverse_sublist, ← List.tail_reverse, ← List.tail_reverse]
  exact (List.reverse_sublist.mpr h).tail

/-- Grouped by attempt. -/
theorem sum_totalSize (rows : List EventRow) (F : Finset JsString) :
    ∑ a ∈ F, totalSize (rows.filter fun e => e.attemptId = a) =
      totalSize (rows.filter fun e => e.attemptId ∈ F) := by
  induction rows with
  | nil => simp [totalSize]
  | cons e rest ih =>
      have hhead : ∀ b, totalSize ((e :: rest).filter fun e => e.attemptId = b) =
          (if e.attemptId = b then e.bytes else 0) +
            totalSize (rest.filter fun e => e.attemptId = b) := by
        intro b
        by_cases hb : e.attemptId = b
        · simp [hb, totalSize]
        · simp [hb, totalSize]
      simp only [hhead, Finset.sum_add_distrib, ih, Finset.sum_ite_eq]
      by_cases hF : e.attemptId ∈ F
      · simp [hF, totalSize]
      · simp [hF, totalSize]

theorem sum_bytes_le (s : EventLog) (F : Finset JsString) :
    ∑ a ∈ F, s.unackedBytes a ≤ s.connUnackedBytes := by
  show ∑ a ∈ F, totalSize (s.eventRowsOf a) ≤ totalSize s.events.rows
  simp only [EventLog.eventRowsOf]
  rw [sum_totalSize]
  exact totalSize_le List.filter_sublist

theorem connUnackedBytes_eq (s : EventLog) :
    s.connUnackedBytes = ∑ a ∈ s.streaming, s.unackedBytes a := by
  show totalSize s.events.rows = ∑ a ∈ s.streaming, totalSize (s.eventRowsOf a)
  simp only [EventLog.eventRowsOf]
  rw [sum_totalSize]
  congr 1
  refine (List.filter_eq_self.mpr ?_).symm
  intro e he
  exact decide_eq_true (List.mem_toFinset.mpr (List.mem_map_of_mem he))

/-! ### The invariant -/

/-- The run of the attempt may send the next event. -/
def isOpen (w : World) (a : JsString) : Bool :=
  match w.registry.get a with
  | some r => (w.jobs r).run.isSome && !(w.jobs r).paused
  | none => false

/-- What counts of an attempt: all of it while it is open, else all but the last event. -/
def heldSize (w : World) (a : JsString) : Nat :=
  if isOpen w a then totalSize (w.store.eventRowsOf a) else totalSize (w.store.eventRowsOf a).dropLast

structure Contained (env : Env) (w : World) : Prop where
  opened : ∀ a, isOpen w a = true →
    w.store.unackedEvents a < env.caps.events ∧ w.store.unackedBytes a < env.caps.bytes
  events : ∀ a, w.store.unackedEvents a ≤ env.caps.events
  bytes : ∀ a, totalSize (w.store.eventRowsOf a).dropLast < env.caps.bytes
  conn : ∀ F : Finset JsString, ∑ a ∈ F, heldSize w a < env.caps.conn

theorem isOpen_iff : isOpen w a = true ↔
    ∃ r, w.registry.get a = some r ∧ (w.jobs r).run.isSome = true ∧ (w.jobs r).paused = false := by
  unfold isOpen
  cases w.registry.get a with
  | none => simp
  | some r => simp

theorem heldSize_le (w : World) (a : JsString) :
    heldSize w a ≤ totalSize (w.store.eventRowsOf a) := by
  unfold heldSize
  split
  · exact le_refl _
  · exact totalSize_le (List.dropLast_sublist _)

/-- Below the cap of the connection nothing else matters for it. -/
theorem conn_of_lt (h : w.store.connUnackedBytes < env.caps.conn) (F : Finset JsString) :
    ∑ a ∈ F, heldSize w a < env.caps.conn :=
  (Finset.sum_le_sum fun a _ => heldSize_le w a).trans_lt ((sum_bytes_le w.store F).trans_lt h)

/-- **The bound follows.** -/
theorem Contained.bound (h : Contained env w) : BackpressureBound env w where
  events := h.events
  bytes := by
    intro a
    have hbytes := h.bytes a
    have hsplit := totalSize_eq (w.store.eventRowsOf a)
    show totalSize (w.store.eventRowsOf a) < _
    omega
  conn := by
    have hsum : w.store.connUnackedBytes ≤
        ∑ a ∈ w.store.streaming, heldSize w a +
          ∑ a ∈ w.store.streaming, lastSize (w.store.eventRowsOf a) := by
      rw [connUnackedBytes_eq, ← Finset.sum_add_distrib]
      refine Finset.sum_le_sum fun a _ => ?_
      have hsplit := totalSize_eq (w.store.eventRowsOf a)
      show totalSize (w.store.eventRowsOf a) ≤ _
      unfold heldSize
      split <;> omega
    have := h.conn w.store.streaming
    omega

/-! ### What a step opens -/

/-- An attempt is opened by an acceptance, or by the ack that lets its run go on. -/
theorem open_step (hs : w.ledger.Sound) {act : Action} (h : isOpen (step env w act) a = true) :
    isOpen w a = true ∨ (∃ lease started, opOf env w act = .accept a lease started) ∨
      ∃ r, (opOf env w act).flow = some (r, false) ∧ w.registry.get a = some r := by
  obtain ⟨r, hlive', hrun', hpaused'⟩ := isOpen_iff.mp h
  have hstep := step_refines env hs act
  rcases hstep.live a with (heq | hnone) | ⟨lease, started, hop, -⟩
  · have hlive : w.registry.get a = some r := heq.symm.trans hlive'
    have hlt := hs.live_lt a r hlive
    have hrun : (w.jobs r).run.isSome = true := by
      rcases hstep.run hlt with hsame | hgone
      · exact (congrArg Option.isSome hsame).symm.trans hrun'
      · rw [show ((step env w act).jobs r).run = none from hgone] at hrun'
        cases hrun'
    have hpaused := hstep.paused hlt
    cases hflow : (opOf env w act).flow with
    | none =>
        rw [hflow] at hpaused
        exact Or.inl (isOpen_iff.mpr ⟨r, hlive, hrun, hpaused.symm.trans hpaused'⟩)
    | some p =>
        obtain ⟨q, stop⟩ := p
        rw [hflow] at hpaused
        simp only at hpaused
        by_cases hq : q = r
        · subst hq
          rw [if_pos rfl] at hpaused
          obtain rfl : stop = false := hpaused.symm.trans hpaused'
          exact Or.inr (Or.inr ⟨q, rfl, hlive⟩)
        · rw [if_neg hq] at hpaused
          exact Or.inl (isOpen_iff.mpr ⟨r, hlive, hrun, hpaused.symm.trans hpaused'⟩)
  · exact absurd (hnone.symm.trans hlive') (by simp)
  · exact Or.inr (Or.inl ⟨lease, started, hop⟩)

/-- A step that stores nothing and opens only what is empty. -/
theorem contained_kept (hcaps : 1 ≤ env.caps.events ∧ 1 ≤ env.caps.bytes ∧ 1 ≤ env.caps.conn)
    (h : Contained env w) {w' : World}
    (hrows : ∀ a, (w'.store.eventRowsOf a).Sublist (w.store.eventRowsOf a))
    (hopen : ∀ a, isOpen w' a = true → isOpen w a = true ∨ w'.store.eventRowsOf a = []) :
    Contained env w' where
  opened := by
    intro a ha
    rcases hopen a ha with hbefore | hnil
    · obtain ⟨hevents, hbytes⟩ := h.opened a hbefore
      exact ⟨(hrows a).length_le.trans_lt hevents, (totalSize_le (hrows a)).trans_lt hbytes⟩
    · refine ⟨?_, ?_⟩
      · rw [EventLog.unackedEvents, hnil]
        exact hcaps.1
      · rw [EventLog.unackedBytes, hnil]
        exact hcaps.2.1
  events := fun a => (hrows a).length_le.trans (h.events a)
  bytes := fun a => (totalSize_le (dropLast_sublist (hrows a))).trans_lt (h.bytes a)
  conn := by
    intro F
    refine (Finset.sum_le_sum fun a _ => ?_).trans_lt (h.conn F)
    have hall := totalSize_le (hrows a)
    have hlast := totalSize_le (dropLast_sublist (hrows a))
    have hless := totalSize_le (List.dropLast_sublist (w.store.eventRowsOf a))
    unfold heldSize
    by_cases ha : isOpen w' a = true
    · rcases hopen a ha with hbefore | hnil
      · rw [if_pos ha, if_pos hbefore]
        exact hall
      · rw [if_pos ha, hnil]
        exact Nat.zero_le _
    · rw [if_neg ha]
      split
      · exact hlast.trans hless
      · exact hlast

/-- The run that sends an event is open. -/
theorem open_of_event (hs : w.ledger.Sound) (ho : w.ledger.Owned) (hflow : Flowing w)
    (hrun : r ∈ w.runs) (hended : r ∉ w.ended) (hf : (w.jobs r).fenced = false)
    (hstopped : stopped w r = false) :
    w.registry.get (w.jobs r).attemptId = some r ∧ isOpen w (w.jobs r).attemptId = true := by
  have hlive := ho.registered r ⟨hrun, hended⟩ hf
  have hself : (w.jobs r).run = some r := hs.running r ⟨hrun, hended⟩
  have hsome : (w.jobs r).run.isSome = true := by rw [hself]; rfl
  refine ⟨hlive, isOpen_iff.mpr ⟨r, hlive, hsome, ?_⟩⟩
  rw [hflow.agree r (hs.live_lt _ r hlive) hsome]
  exact hstopped

/-- A run that is told to pause is not open any more. -/
theorem closed_of_pause (hs : w.ledger.Sound) {act : Action} {row : EventRow}
    (hop : opOf env w act = .event r row true) (hlive : w.registry.get row.attemptId = some r) :
    isOpen (step env w act) row.attemptId = false := by
  have hstep := step_refines env hs act
  rw [hop] at hstep
  rw [Bool.eq_false_iff]
  intro hc
  obtain ⟨q, hlive', -, hpaused'⟩ := isOpen_iff.mp hc
  obtain rfl : q = r := by
    rcases hstep.live row.attemptId with (heq | hnone) | ⟨lease, started, hc, -⟩
    · exact Option.some.inj ((heq.symm.trans hlive').symm.trans hlive)
    · exact absurd (hnone.symm.trans hlive') (by simp)
    · cases hc
  have hpaused := hstep.paused (hs.live_lt _ q hlive)
  simp only [Op.flow, if_true] at hpaused
  exact absurd (hpaused.symm.trans hpaused') (by simp)

theorem contained_event (hs : w.ledger.Sound) (h : Contained env w) {act : Action} {row : EventRow}
    {pause : Bool} (hop : opOf env w act = .event r row pause)
    (hlive : w.registry.get row.attemptId = some r) (hown : isOpen w row.attemptId = true)
    (hpause : pause = overCap env (step env w act).store row.attemptId) :
    Contained env (step env w act) := by
  have hstep := step_refines env hs act
  rw [hop] at hstep
  have hrows : ∀ a, (step env w act).store.eventRowsOf a =
      if row.attemptId = a then w.store.eventRowsOf a ++ [row] else w.store.eventRowsOf a := by
    intro a
    refine (hstep.eventsOf_kept (a := a) fun _ => rfl).trans ?_
    by_cases ha : row.attemptId = a
    · simp only [Op.stored, Option.toList_some, List.filter_singleton, ha, decide_true]
      rfl
    · simp only [Op.stored, Option.toList_some, List.filter_singleton, ha, decide_false]
      exact List.append_nil _
  have hopen : ∀ a, isOpen (step env w act) a = true → isOpen w a = true := by
    intro a ha
    rcases open_step hs ha with hbefore | ⟨lease, started, hc⟩ | ⟨q, hc, -⟩
    · exact hbefore
    · rw [hop] at hc
      cases hc
    · rw [hop] at hc
      cases pause <;> cases hc
  obtain ⟨hevents, hbytes⟩ := h.opened _ hown
  have hdropLast : totalSize ((step env w act).store.eventRowsOf row.attemptId).dropLast =
      w.store.unackedBytes row.attemptId := by
    rw [hrows, if_pos rfl, List.dropLast_concat]
    rfl
  have hcount : (step env w act).store.unackedEvents row.attemptId =
      w.store.unackedEvents row.attemptId + 1 := by
    rw [EventLog.unackedEvents, hrows, if_pos rfl, List.length_append]
    rfl
  have hother : ∀ a, row.attemptId ≠ a →
      (step env w act).store.eventRowsOf a = w.store.eventRowsOf a := by
    intro a ha
    rw [hrows, if_neg ha]
  refine ⟨?_, ?_, ?_, ?_⟩
  · intro a ha
    by_cases hid : row.attemptId = a
    · subst hid
      cases pause with
      | false =>
          have hbelow := mt (overCap_iff _).mpr (Bool.eq_false_iff.mp hpause.symm)
          omega
      | true => exact absurd ha (by rw [closed_of_pause hs hop hlive]; simp)
    · have hold := h.opened a (hopen a ha)
      rwa [EventLog.unackedEvents, EventLog.unackedBytes, hother a hid]
  · intro a
    by_cases hid : row.attemptId = a
    · subst hid
      omega
    · rw [EventLog.unackedEvents, hother a hid]
      exact h.events a
  · intro a
    by_cases hid : row.attemptId = a
    · subst hid
      rw [hdropLast]
      exact hbytes
    · rw [hother a hid]
      exact h.bytes a
  · intro F
    cases pause with
    | false =>
        have hbelow := mt (overCap_iff _).mpr (Bool.eq_false_iff.mp hpause.symm)
        exact conn_of_lt (by omega) F
    | true =>
        refine (Finset.sum_le_sum fun a _ => ?_).trans_lt (h.conn F)
        by_cases hid : row.attemptId = a
        · subst hid
          rw [heldSize, closed_of_pause hs hop hlive, if_neg Bool.false_ne_true, hdropLast, heldSize, if_pos hown]
          exact le_refl _
        · rw [heldSize, heldSize, hother a hid]
          by_cases ha : isOpen (step env w act) a = true
          · rw [if_pos ha, if_pos (hopen a ha)]
          · rw [if_neg ha]
            split
            · exact totalSize_le (List.dropLast_sublist _)
            · exact le_refl _

/-! ### What a step keeps -/

theorem eventRows_sublist (hs : w.ledger.Sound) {act : Action}
    (hstored : (opOf env w act).stored = none) (a : JsString) :
    ((step env w act).store.eventRowsOf a).Sublist (w.store.eventRowsOf a) := by
  have hrows : (step env w act).store.eventRowsOf a = _ := (step_refines env hs act).eventsOf a
  rw [hstored, Option.toList_none, List.filter_nil, List.append_nil] at hrows
  rw [hrows]
  exact List.filter_sublist

/-- Below its caps again, the attempt may go on. -/
theorem contained_resumed (hs : w.ledger.Sound) (h : Contained env w) {act : Action} {n : Nat}
    (hop : opOf env w act = .ack a n (some r)) : Contained env (step env w act) := by
  have hrows : ∀ b, ((step env w act).store.eventRowsOf b).Sublist (w.store.eventRowsOf b) :=
    eventRows_sublist hs (by rw [hop]; rfl)
  obtain ⟨msg, rfl, rfl, hok, hres⟩ := opOf_eq_ack hop
  -- the caps are looked at after the ack
  obtain ⟨hlive, hbelow⟩ : w.registry.get msg.attemptId = some r ∧
      overCap env (step env w (.streamAck msg)).store msg.attemptId = false := by
    rw [store_streamAck env hok]
    unfold resumedBy at hres
    split at hres
    · rename_i q hq
      split at hres
      · rename_i hflow
        obtain rfl := Option.some.inj hres
        have hid : (w.jobs q).attemptId = msg.attemptId := hs.attempt _ q hq
        rw [Bool.and_eq_true, hid] at hflow
        exact ⟨hq, by simpa using hflow.2⟩
      · cases hres
    · cases hres
  have hcaps := mt (overCap_iff _).mpr (Bool.eq_false_iff.mp hbelow)
  refine ⟨?_, ?_, ?_, ?_⟩
  · intro b hb
    rcases open_step hs hb with hbefore | ⟨lease, started, hc⟩ | ⟨q, hflow, hq⟩
    · obtain ⟨hevents, hbytes⟩ := h.opened b hbefore
      exact ⟨(hrows b).length_le.trans_lt hevents, (totalSize_le (hrows b)).trans_lt hbytes⟩
    · rw [hop] at hc
      cases hc
    · rw [hop] at hflow
      obtain rfl : r = q := congrArg Prod.fst (Option.some.inj hflow)
      obtain rfl : msg.attemptId = b := (hs.attempt _ r hlive).symm.trans (hs.attempt b r hq)
      omega
  · exact fun b => (hrows b).length_le.trans (h.events b)
  · exact fun b => (totalSize_le (dropLast_sublist (hrows b))).trans_lt (h.bytes b)
  · exact conn_of_lt (by omega)

theorem contained_step (hcaps : 1 ≤ env.caps.events ∧ 1 ≤ env.caps.bytes ∧ 1 ≤ env.caps.conn)
    (hs : w.ledger.Sound) (ho : w.ledger.Owned) (hflow : Flowing w) (h : Contained env w)
    {act : Action} (hpause : HonoursPause env w act) (hsilent : SilentWhenDone w act) :
    Contained env (step env w act) := by
  by_cases hevent : ∃ row, (opOf env w act).stored = some row
  · obtain ⟨row, hrow⟩ := hevent
    cases hop : opOf env w act with
    | event r row pause =>
        have hstep := step_refines env hs act
        rw [hop] at hstep
        obtain ⟨ev, events, rfl, rfl, hins, rfl⟩ := opOf_eq_event hop
        obtain ⟨hrun, hf, -⟩ := hstep.emitter
        obtain ⟨hlive, hown⟩ := open_of_event hs ho hflow hrun hsilent hf hpause
        refine contained_event hs h hop hlive hown (overCap_congr ?_ _)
        exact Option.some.inj (hins.symm.trans hstep.inserted)
    | _ =>
        rw [hop] at hrow
        cases hrow
  · have hstored : (opOf env w act).stored = none := by
      rw [Option.eq_none_iff_forall_ne_some]
      exact fun row hrow => hevent ⟨row, hrow⟩
    have hrows := eventRows_sublist hs hstored
    by_cases hresume : ∃ a n r, opOf env w act = .ack a n (some r)
    · obtain ⟨a, n, r, hop⟩ := hresume
      exact contained_resumed hs h hop
    · refine contained_kept hcaps h hrows ?_
      intro a ha
      rcases open_step hs ha with hbefore | ⟨lease, started, hop⟩ | ⟨r, hop, -⟩
      · exact Or.inl hbefore
      · -- a run starts with nothing stored
        obtain ⟨msg, reply, rfl, rfl, -, -, hnew, hroom⟩ := opOf_eq_accept hop
        have hnil := hpause (by simp [accepts, hnew, hroom])
        rw [EventLog.unackedEvents, List.length_eq_zero_iff] at hnil
        exact Or.inr (List.sublist_nil.mp (hnil ▸ hrows msg.attemptId))
      · exfalso
        cases hact : opOf env w act with
        | ack b n u =>
            cases u with
            | none => rw [hact] at hop; cases hop
            | some q => exact hresume ⟨b, n, q, hact⟩
        | event q row pause =>
            rw [hact] at hstored
            cases hstored
        | _ =>
            rw [hact] at hop
            cases hop

theorem contained_start (hcaps : 1 ≤ env.caps.events ∧ 1 ≤ env.caps.bytes ∧ 1 ≤ env.caps.conn) :
    Contained env World.start where
  opened := fun a ha => absurd ha (by simp [isOpen, World.start])
  events := fun _ => Nat.zero_le _
  bytes := fun _ => hcaps.2.1
  conn := by
    intro F
    refine conn_of_lt ?_ F
    exact hcaps.2.2

/-! ### The result -/

/-- The engine keeps its contract, and no attempt that runs is dropped under it. -/
def BoundSafe (env : Env) (w : World) (act : Action) : Prop :=
  HonoursPause env w act ∧ SilentWhenDone w act ∧ AckPendingSafe w act

instance (env : Env) (w : World) (act : Action) : Decidable (BoundSafe env w act) :=
  inferInstanceAs (Decidable (_ ∧ _))

/-- **What is outstanding is bounded by the caps.** -/
theorem backpressure_bound (env : Env) (hevents : 1 ≤ env.caps.events)
    (hbytes : 1 ≤ env.caps.bytes) (hconn : 1 ≤ env.caps.conn) (acts : List Action)
    (h : Along env (BoundSafe env) acts) : BackpressureBound env (runFrom env acts) := by
  have hcaps := And.intro hevents (And.intro hbytes hconn)
  have hrun := Machine.run_invariant (step env)
    (I := fun w : World => w.ledger.Sound ∧ w.ledger.Owned ∧ Flowing w ∧ Contained env w)
    ?_ ⟨sound_start, owned_start, flowing env [], contained_start hcaps⟩ h
  · exact hrun.2.2.2.bound
  · intro w act hI hsafe
    obtain ⟨hs, ho, hflow, hcont⟩ := hI
    obtain ⟨hpause, hsilent, hack⟩ := hsafe
    exact ⟨sound_step hs act, ho.step (step_refines env hs act) hs (careful_of_safe hack),
      flowing_step hs hflow act, contained_step hcaps hs ho hflow hcont hpause hsilent⟩

/-- An attempt is paused by its second event, goes on after an ack, and finishes with the cap
reached. -/
theorem backpressure_bound_reached :
    let env := sampleEnv sampleDigestOne ⟨2, 100000, 100000⟩
    let acts := [sampleAssign "a" "l", .callback 0 (.event sampleEvent),
      .callback 0 (.event sampleEvent), .streamAck ⟨js "a", js "l", 1⟩,
      .callback 0 (.event sampleEvent), .callback 0 (.done (.success none))]
    (runFrom env acts).store.unackedEvents (js "a") = 2 ∧
      BackpressureBound env (runFrom env acts) :=
  ⟨by decide +kernel, backpressure_bound _ (by decide) (by decide) (by decide) _
    (by decide +kernel)⟩

/-- The bound where the engine honours its pauses and `P` is all else that is known. -/
def BoundUnder (P : Env → List Action → Prop) : Prop :=
  ∀ env acts, 1 ≤ env.caps.events → Along env (HonoursPause env) acts → P env acts →
    BackpressureBound env (runFrom env acts)

/-- Pauses that are honoured are not enough, and none of the other conditions can be left out:
bytes and connection need a cap to stay below; a run that has said it is done is not paused any
more; and a run that `ack_pending` took out of the registry pauses itself only, while it stores
under the id of another. -/
theorem bound_exceeded :
    ¬ BoundUnder (fun _ _ => True) ∧
    ¬ BoundUnder (fun env acts => 1 ≤ env.caps.conn ∧ Along env SilentWhenDone acts ∧
      Along env AckPendingSafe acts) ∧
    ¬ BoundUnder (fun env acts => 1 ≤ env.caps.bytes ∧ Along env SilentWhenDone acts ∧
      Along env AckPendingSafe acts) ∧
    ¬ BoundUnder (fun env acts => 1 ≤ env.caps.bytes ∧ 1 ≤ env.caps.conn ∧
      Along env AckPendingSafe acts) ∧
    ¬ BoundUnder (fun env acts => 1 ≤ env.caps.bytes ∧ 1 ≤ env.caps.conn ∧
      Along env SilentWhenDone acts) := by
  refine ⟨?_, ?_, ?_, ?_, ?_⟩
  · intro hall
    have h := hall (sampleEnv sampleDigest ⟨1, 100000, 100000⟩)
      [sampleAssign "a" "l", .callback 0 (.done (.success none)), .callback 0 (.event sampleEvent),
        .callback 0 (.event sampleEvent)] (by decide) (by decide +kernel) trivial
    exact absurd (h.events (js "a")) (by decide +kernel)
  · intro hall
    have h := hall (sampleEnv sampleDigest ⟨1, 0, 1⟩) [] (by decide) trivial (by decide)
    exact absurd (h.bytes (js "a")) (by decide)
  · intro hall
    have h := hall (sampleEnv sampleDigest ⟨1, 1, 0⟩) [] (by decide) trivial (by decide)
    exact absurd h.conn (by decide)
  · intro hall
    have h := hall (sampleEnv sampleDigest ⟨1, 100000, 100000⟩)
      [sampleAssign "a" "l", .callback 0 (.done (.success none)), .callback 0 (.event sampleEvent),
        .callback 0 (.event sampleEvent)] (by decide) (by decide +kernel) (by decide +kernel)
    exact absurd (h.events (js "a")) (by decide +kernel)
  · intro hall
    have h := hall (sampleEnv sampleDigest ⟨2, 100000, 100000⟩)
      [sampleAssign "a" "l", .callback 0 (.event sampleEvent), sampleDrop "a" .ackPending (by decide),
        sampleAssign "a" "l", .callback 1 (.event sampleEvent), .callback 0 (.event sampleEvent),
        .callback 1 (.event sampleEvent), .callback 1 (.event sampleEvent)]
      (by decide) (by decide +kernel) (by decide +kernel)
    exact absurd (h.events (js "a")) (by decide +kernel)

end HuginAgent
