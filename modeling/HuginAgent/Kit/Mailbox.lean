/-
A mailbox with waiters and handlers.

A message that comes in goes to the first waiter that wants it, which is gone then; else to the
handlers; and where there are none it is kept, until a waiter asks for it or a handler is
registered.  A waiter may give up, and all of them do when the mailbox is closed.

A journal is a mailbox with a record of what came in, what each waiter took and what the
handlers were given.  `Journal.Kept` says that nothing is lost, nothing comes twice and the
handlers see the messages in the order in which they came.
-/
import HuginAgent.Kit.Machine
import Mathlib.Data.List.Perm.Basic

namespace HuginAgent

/-- A call that waits for a message. -/
structure Waiter (μ : Type) where
  id : Nat
  wants : μ → Bool

structure Mailbox (μ : Type) where
  pending : List μ
  waiters : List (Waiter μ)
  handlers : List Nat
  nextWaiter : Nat

/-- Where a message went. -/
inductive Route (μ : Type)
  | taken (w : Waiter μ)
  | handed (handlers : List Nat)
  | kept

namespace Mailbox

variable {μ : Type} (box : Mailbox μ)

def empty (μ : Type) : Mailbox μ := ⟨[], [], [], 0⟩

/-- A message comes in. -/
def deliver (m : μ) : Mailbox μ × Route μ :=
  match box.waiters.find? fun w => w.wants m with
  | some w => ({ box with waiters := box.waiters.eraseP fun w => w.wants m }, .taken w)
  | none =>
      if box.handlers = [] then ({ box with pending := box.pending ++ [m] }, .kept)
      else (box, .handed box.handlers)

/-- The next waiter, and what it takes at once. -/
def waitFor (wants : μ → Bool) : Mailbox μ × Waiter μ × Option μ :=
  let w : Waiter μ := ⟨box.nextWaiter, wants⟩
  match box.pending.find? wants with
  | some m =>
      ({ box with pending := box.pending.eraseP wants, nextWaiter := box.nextWaiter + 1 }, w, some m)
  | none =>
      ({ box with waiters := box.waiters ++ [w], nextWaiter := box.nextWaiter + 1 }, w, none)

/-- A waiter gives up. -/
def expire (id : Nat) : Mailbox μ := { box with waiters := box.waiters.filter fun w => w.id ≠ id }

/-- A handler is registered, and given all that was kept. -/
def onMessage (h : Nat) : Mailbox μ × List μ :=
  ({ box with
      handlers := if h ∈ box.handlers then box.handlers else box.handlers ++ [h]
      pending := [] },
    box.pending)

def removeHandler (h : Nat) : Mailbox μ :=
  { box with handlers := box.handlers.filter fun h' => h' ≠ h }

def close : Mailbox μ := { box with waiters := [] }

end Mailbox

/-- A mailbox, and what has become of the messages. -/
structure Journal (μ : Type) where
  box : Mailbox μ
  arrived : List μ
  taken : List (Waiter μ × μ)
  handed : List (List Nat × μ)

namespace Journal

variable {μ : Type}

def empty (μ : Type) : Journal μ := ⟨.empty μ, [], [], []⟩

section

variable (j : Journal μ)

def deliver (m : μ) : Journal μ × Route μ :=
  let (box, route) := j.box.deliver m
  let j := { j with box, arrived := j.arrived ++ [m] }
  match route with
  | .taken w => ({ j with taken := j.taken ++ [(w, m)] }, route)
  | .handed handlers => ({ j with handed := j.handed ++ [(handlers, m)] }, route)
  | .kept => (j, route)

def waitFor (wants : μ → Bool) : Journal μ × Waiter μ × Option μ :=
  match j.box.waitFor wants with
  | (box, w, some m) => ({ j with box, taken := j.taken ++ [(w, m)] }, w, some m)
  | (box, w, none) => ({ j with box }, w, none)

def expire (id : Nat) : Journal μ := { j with box := j.box.expire id }

def onMessage (h : Nat) : Journal μ × List μ :=
  let (box, kept) := j.box.onMessage h
  ({ j with box, handed := j.handed ++ kept.map fun m => ([h], m) }, kept)

def removeHandler (h : Nat) : Journal μ := { j with box := j.box.removeHandler h }

def close : Journal μ := { j with box := j.box.close }

/-- **Every message is in one place, and the handlers get them in order.** -/
structure Kept : Prop where
  exactlyOnce : (j.taken.map Prod.snd ++ (j.handed.map Prod.snd ++ j.box.pending)).Perm j.arrived
  inOrder : (j.handed.map Prod.snd ++ j.box.pending).Sublist j.arrived
  /-- What a waiter took it had asked for. -/
  matching : ∀ p ∈ j.taken, p.1.wants p.2 = true
  /-- A waiter takes one message, and is gone then. -/
  oneEach : (j.taken.map (fun p => p.1.id) ++ j.box.waiters.map Waiter.id).Nodup
  /-- A message is handed to somebody. -/
  toHandler : ∀ p ∈ j.handed, p.1 ≠ []
  /-- What is kept nobody wants yet. -/
  unclaimed : j.box.handlers ≠ [] → j.box.pending = []
  unwanted : ∀ w ∈ j.box.waiters, ∀ m ∈ j.box.pending, w.wants m = false
  fresh : ∀ id ∈ j.taken.map (fun p => p.1.id) ++ j.box.waiters.map Waiter.id, id < j.box.nextWaiter

end

variable {j : Journal μ}

theorem kept_empty : (empty μ).Kept where
  exactlyOnce := List.Perm.refl _
  inOrder := List.Sublist.refl _
  matching := fun _ hp => absurd hp List.not_mem_nil
  oneEach := List.nodup_nil
  toHandler := fun _ hp => absurd hp List.not_mem_nil
  unclaimed := fun _ => rfl
  unwanted := fun _ hw => absurd hw List.not_mem_nil
  fresh := fun _ hid => absurd hid List.not_mem_nil

/-! ### A message comes in -/

/-- What is found is what is erased. -/
theorem perm_eraseP {α : Type} {p : α → Bool} {l : List α} {x : α} (h : l.find? p = some x) :
    (x :: l.eraseP p).Perm l := by
  induction l with
  | nil => exact nomatch h
  | cons v l ih =>
      by_cases hv : p v = true
      · rw [List.find?_cons_of_pos hv] at h
        obtain rfl := Option.some.inj h
        rw [List.eraseP_cons_of_pos hv]
      · rw [List.find?_cons_of_neg hv] at h
        rw [List.eraseP_cons_of_neg hv]
        exact (List.Perm.swap v x _).trans ((ih h).cons v)

theorem kept_deliver (h : j.Kept) (m : μ) : (j.deliver m).1.Kept := by
  unfold deliver Mailbox.deliver
  cases hfind : j.box.waiters.find? fun w => w.wants m with
  | some w =>
      have hwants : w.wants m = true := List.find?_some (p := fun w : Waiter μ => w.wants m) hfind
      have hids : (j.taken.map (fun p => p.1.id) ++ [w.id] ++
          (j.box.waiters.eraseP fun w => w.wants m).map Waiter.id).Perm
          (j.taken.map (fun p => p.1.id) ++ j.box.waiters.map Waiter.id) := by
        rw [List.append_assoc]
        exact ((perm_eraseP hfind).map Waiter.id).append_left _
      have htaken : (j.taken ++ [(w, m)]).map (fun p => p.1.id) =
          j.taken.map (fun p => p.1.id) ++ [w.id] := List.map_append
      refine ⟨?_, h.inOrder.trans (List.sublist_append_left _ _), ?_, ?_, h.toHandler, h.unclaimed,
        ?_, ?_⟩
      · simp only [List.map_append, List.map_cons, List.map_nil]
        rw [List.append_assoc]
        refine (List.perm_append_comm.append_left _).trans ?_
        rw [← List.append_assoc]
        exact h.exactlyOnce.append_right _
      · intro p hp
        rcases List.mem_append.mp hp with hp | hp
        · exact h.matching p hp
        · rw [List.mem_singleton.mp hp]
          exact hwants
      · simp only [htaken]
        exact hids.nodup_iff.mpr h.oneEach
      · intro v hv
        exact h.unwanted v (List.mem_of_mem_eraseP hv)
      · intro id hid
        simp only [htaken] at hid
        exact h.fresh id (hids.mem_iff.mp hid)
  | none =>
      by_cases hhandlers : j.box.handlers = []
      · simp only [hhandlers, if_true]
        refine ⟨?_, ?_, h.matching, h.oneEach, h.toHandler, fun hne => absurd rfl hne, ?_, h.fresh⟩
        · rw [← List.append_assoc, ← List.append_assoc]
          have := h.exactlyOnce.append_right [m]
          rwa [← List.append_assoc] at this
        · rw [← List.append_assoc]
          exact h.inOrder.append_right [m]
        · intro w hw m' hm'
          rcases List.mem_append.mp hm' with hm' | hm'
          · exact h.unwanted w hw m' hm'
          · rw [List.mem_singleton.mp hm']
            exact Bool.eq_false_iff.mpr (List.find?_eq_none.mp hfind w hw)
      · have hpending := h.unclaimed hhandlers
        have honce := h.exactlyOnce
        have horder := h.inOrder
        simp only [if_neg hhandlers]
        rw [hpending, List.append_nil] at honce horder
        refine ⟨?_, ?_, h.matching, h.oneEach, ?_, h.unclaimed, h.unwanted, h.fresh⟩
        · simp only [hpending, List.append_nil, List.map_append, List.map_cons, List.map_nil]
          rw [← List.append_assoc]
          exact honce.append_right [m]
        · simp only [hpending, List.append_nil, List.map_append, List.map_cons, List.map_nil]
          exact horder.append_right [m]
        · intro p hp
          rcases List.mem_append.mp hp with hp | hp
          · exact h.toHandler p hp
          · rw [List.mem_singleton.mp hp]
            exact hhandlers

/-! ### A waiter comes, or goes -/

theorem kept_waitFor (h : j.Kept) (wants : μ → Bool) : (j.waitFor wants).1.Kept := by
  have hnew : ∀ id ∈ j.taken.map (fun p => p.1.id) ++ j.box.waiters.map Waiter.id,
      id ≠ j.box.nextWaiter := fun id hid => Nat.ne_of_lt (h.fresh id hid)
  unfold waitFor Mailbox.waitFor
  cases hfind : j.box.pending.find? wants with
  | some m =>
      have hperm := perm_eraseP hfind
      have htaken : (j.taken ++ [(Waiter.mk j.box.nextWaiter wants, m)]).map (fun p => p.1.id) =
          j.taken.map (fun p => p.1.id) ++ [j.box.nextWaiter] := List.map_append
      have hids : (j.taken.map (fun p => p.1.id) ++ [j.box.nextWaiter] ++
          j.box.waiters.map Waiter.id).Perm
          (j.box.nextWaiter :: (j.taken.map (fun p => p.1.id) ++ j.box.waiters.map Waiter.id)) := by
        rw [List.append_assoc]
        exact List.perm_middle
      refine ⟨?_, ?_, ?_, ?_, h.toHandler, ?_, ?_, ?_⟩
      · refine List.Perm.trans ?_ h.exactlyOnce
        simp only [List.map_append, List.map_cons, List.map_nil]
        rw [List.append_assoc]
        refine List.Perm.append_left _ ?_
        show (m :: (j.handed.map Prod.snd ++ j.box.pending.eraseP wants)).Perm _
        exact List.perm_middle.symm.trans (hperm.append_left _)
      · exact ((List.eraseP_sublist ..).append_left _).trans h.inOrder
      · intro p hp
        rcases List.mem_append.mp hp with hp | hp
        · exact h.matching p hp
        · rw [List.mem_singleton.mp hp]
          exact List.find?_some hfind
      · simp only [htaken]
        exact hids.nodup_iff.mpr (List.nodup_cons.mpr
          ⟨fun hmem => hnew _ hmem rfl, h.oneEach⟩)
      · intro hhandlers
        rw [h.unclaimed hhandlers] at hfind
        exact nomatch hfind
      · intro w hw m' hm'
        exact h.unwanted w hw m' (List.mem_of_mem_eraseP hm')
      · intro id hid
        simp only [htaken] at hid
        rcases List.mem_cons.mp (hids.mem_iff.mp hid) with rfl | hid
        · exact Nat.lt_succ_self _
        · exact Nat.lt_succ_of_lt (h.fresh id hid)
  | none =>
      have hwaiters : (j.box.waiters ++ [Waiter.mk j.box.nextWaiter wants]).map Waiter.id =
          j.box.waiters.map Waiter.id ++ [j.box.nextWaiter] := List.map_append
      refine ⟨h.exactlyOnce, h.inOrder, h.matching, ?_, h.toHandler, h.unclaimed, ?_, ?_⟩
      · simp only [hwaiters]
        rw [← List.append_assoc]
        refine List.nodup_append.mpr ⟨h.oneEach, List.pairwise_singleton _ _, ?_⟩
        intro id hid id' hid'
        rw [List.mem_singleton.mp hid']
        exact hnew id hid
      · intro w hw m hm
        rcases List.mem_append.mp hw with hw | hw
        · exact h.unwanted w hw m hm
        · rw [List.mem_singleton.mp hw]
          exact Bool.eq_false_iff.mpr (List.find?_eq_none.mp hfind m hm)
      · intro id hid
        simp only [hwaiters] at hid
        rw [← List.append_assoc] at hid
        rcases List.mem_append.mp hid with hid | hid
        · exact Nat.lt_succ_of_lt (h.fresh id hid)
        · rw [List.mem_singleton.mp hid]
          exact Nat.lt_succ_self _

/-- Waiters that go take nothing with them. -/
theorem kept_of_sublist (h : j.Kept) {ws : List (Waiter μ)} (hws : ws.Sublist j.box.waiters) :
    { j with box := { j.box with waiters := ws } }.Kept where
  exactlyOnce := h.exactlyOnce
  inOrder := h.inOrder
  matching := h.matching
  oneEach := h.oneEach.sublist ((hws.map Waiter.id).append_left _)
  toHandler := h.toHandler
  unclaimed := h.unclaimed
  unwanted := fun w hw => h.unwanted w (hws.subset hw)
  fresh := fun id hid => h.fresh id (((hws.map Waiter.id).append_left _).subset hid)

theorem kept_expire (h : j.Kept) (id : Nat) : (j.expire id).Kept :=
  kept_of_sublist h List.filter_sublist

theorem kept_close (h : j.Kept) : j.close.Kept := kept_of_sublist h (List.nil_sublist _)

/-! ### A handler comes, or goes -/

theorem kept_onMessage (h : j.Kept) (handler : Nat) : (j.onMessage handler).1.Kept := by
  have hhanded : (j.handed ++ j.box.pending.map fun m => ([handler], m)).map Prod.snd =
      j.handed.map Prod.snd ++ j.box.pending := by
    rw [List.map_append, List.map_map]
    exact congrArg _ (List.map_id _)
  unfold onMessage Mailbox.onMessage
  refine ⟨?_, ?_, h.matching, h.oneEach, ?_, fun _ => rfl,
    fun w _ m hm => absurd hm List.not_mem_nil, h.fresh⟩
  · simp only [hhanded, List.append_nil]
    exact h.exactlyOnce
  · simp only [hhanded, List.append_nil]
    exact h.inOrder
  · intro p hp
    rcases List.mem_append.mp hp with hp | hp
    · exact h.toHandler p hp
    · obtain ⟨m, -, rfl⟩ := List.mem_map.mp hp
      exact List.cons_ne_nil _ _

theorem kept_removeHandler (h : j.Kept) (handler : Nat) : (j.removeHandler handler).Kept := by
  refine ⟨h.exactlyOnce, h.inOrder, h.matching, h.oneEach, h.toHandler, ?_, h.unwanted, h.fresh⟩
  intro hne
  refine h.unclaimed fun hempty => hne ?_
  show j.box.handlers.filter _ = []
  rw [hempty]
  rfl

/-! ### What an operation does -/

/-- A message goes to one place. -/
theorem deliver_cases (j : Journal μ) (m : μ) :
    (∃ w, (j.deliver m).2 = .taken w ∧ w.wants m = true ∧
        (j.deliver m).1.box.pending = j.box.pending ∧ (j.deliver m).1.handed = j.handed) ∨
      ((j.deliver m).2 = .handed j.box.handlers ∧ j.box.handlers ≠ [] ∧
        (j.deliver m).1.box.pending = j.box.pending ∧
        (j.deliver m).1.handed = j.handed ++ [(j.box.handlers, m)]) ∨
      ((j.deliver m).2 = .kept ∧ (j.deliver m).1.box.pending = j.box.pending ++ [m] ∧
        (j.deliver m).1.handed = j.handed) := by
  unfold deliver Mailbox.deliver
  cases hfind : j.box.waiters.find? fun w => w.wants m with
  | some w =>
      have hwants := List.find?_some (p := fun w : Waiter μ => w.wants m) hfind
      exact Or.inl ⟨w, rfl, hwants, rfl, rfl⟩
  | none =>
      by_cases h : j.box.handlers = []
      · refine Or.inr (Or.inr ?_)
        simp [h]
      · refine Or.inr (Or.inl ?_)
        simp [h]

theorem deliver_handlers (j : Journal μ) (m : μ) :
    (j.deliver m).1.box.handlers = j.box.handlers := by
  unfold deliver Mailbox.deliver
  cases j.box.waiters.find? fun w => w.wants m with
  | some w => rfl
  | none => by_cases h : j.box.handlers = [] <;> simp [h]

theorem deliver_arrived (j : Journal μ) (m : μ) :
    (j.deliver m).1.arrived = j.arrived ++ [m] := by
  unfold deliver
  simp only
  split <;> rfl

/-- A waiter that takes a message at once takes one that was kept and that it wants. -/
theorem waitFor_got {j : Journal μ} {wants : μ → Bool} {m : μ}
    (h : (j.waitFor wants).2.2 = some m) : m ∈ j.box.pending ∧ wants m = true := by
  unfold waitFor Mailbox.waitFor at h
  cases hfind : j.box.pending.find? wants with
  | none =>
      rw [hfind] at h
      exact nomatch h
  | some m' =>
      rw [hfind] at h
      obtain rfl := Option.some.inj h
      exact ⟨List.mem_of_find?_eq_some hfind, List.find?_some hfind⟩

theorem waitFor_frame (j : Journal μ) (wants : μ → Bool) :
    (j.waitFor wants).1.arrived = j.arrived ∧ (j.waitFor wants).1.handed = j.handed ∧
      (j.waitFor wants).1.box.handlers = j.box.handlers ∧
      (j.waitFor wants).1.box.pending.Sublist j.box.pending := by
  unfold waitFor Mailbox.waitFor
  cases j.box.pending.find? wants with
  | none => exact ⟨rfl, rfl, rfl, List.Sublist.refl _⟩
  | some m => exact ⟨rfl, rfl, rfl, List.eraseP_sublist ..⟩

end Journal

end HuginAgent
