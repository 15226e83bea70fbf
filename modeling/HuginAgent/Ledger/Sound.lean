/-
Registry, attempts and runs fit together, in every state.

`Sound` is kept by every step of the ledger, whatever the server or an engine
does: a registered job carries the id it is registered under, is not fenced and
has its attempt on record under its own lease, and a run that may still call back
is known to its job.

Most steps leave all of this alone; `Sound.of_same` says so once.  What is left are
the steps that give out a job, change a lease, cut a job off or end a run.
-/
import HuginAgent.Ledger.Basic

namespace HuginAgent.Ledger

variable {sha : JsString → JsString} {L L' : Ledger} {a lease : JsString} {r : Ref}

/-- What `Sound` reads of two ledgers is the same. -/
structure Same (L L' : Ledger) : Prop where
  live : L'.live = L.live
  next : L'.next = L.next
  runs : L'.runs = L.runs
  ended : L'.ended = L.ended
  cancelled : L.cancelled ⊆ L'.cancelled
  attempt : ∀ r, (L'.jobs r).attempt = (L.jobs r).attempt
  lease : ∀ r, (L'.jobs r).lease = (L.jobs r).lease
  run : ∀ r, (L'.jobs r).run = (L.jobs r).run
  fenced : ∀ r, (L'.jobs r).fenced = (L.jobs r).fenced
  rows : ∀ a, (L'.rows a).map Row.lease = (L.rows a).map Row.lease

theorem exists_row_iff {o : Option Row} {lease : JsString} :
    (∃ row, o = some row ∧ row.lease = lease) ↔ o.map Row.lease = some lease := by
  rw [Option.map_eq_some_iff]

theorem Same.active (h : Same L L') : L'.Active r ↔ L.Active r := by
  rw [Active, Active, h.runs, h.ended]

theorem Sound.of_same (hs : Sound L) (h : Same L L') : Sound L' where
  attempt := by
    intro a r hl
    rw [h.attempt]
    exact hs.attempt a r (h.live ▸ hl)
  live_lt := by
    intro a r hl
    rw [h.next]
    exact hs.live_lt a r (h.live ▸ hl)
  unfenced := by
    intro a r hl
    rw [h.fenced]
    exact hs.unfenced a r (h.live ▸ hl)
  row := by
    intro a r hl
    rw [exists_row_iff, h.rows, h.lease, ← exists_row_iff]
    exact hs.row a r (h.live ▸ hl)
  runs_lt := by
    intro r hr
    rw [h.next]
    exact hs.runs_lt r (h.runs ▸ hr)
  ended_lt := by
    intro r hr
    rw [h.next]
    exact hs.ended_lt r (h.ended ▸ hr)
  run_self := by
    intro r q hq
    exact hs.run_self r q (h.run r ▸ hq)
  running := by
    intro r hr
    rw [h.run]
    exact hs.running r (h.active.mp hr)
  cancelled := by
    intro r hr hf
    exact h.cancelled (hs.cancelled r (h.active.mp hr) (h.fenced r ▸ hf))

/-- A property of jobs that a change of one of them leaves alone. -/
theorem apply_update {α β : Type} (g : α → β) {jobs : Ref → α} {j : α} (h : g j = g (jobs r))
    (q : Ref) : g (Function.update jobs r j q) = g (jobs q) := by
  by_cases hq : q = r
  · rw [hq, Function.update_self, h]
  · rw [Function.update_of_ne hq]

/-- A change of one job that `Sound` does not read. -/
theorem same_modify {f : Job → Job} (hattempt : (f (L.jobs r)).attempt = (L.jobs r).attempt)
    (hlease : (f (L.jobs r)).lease = (L.jobs r).lease) (hrun : (f (L.jobs r)).run = (L.jobs r).run)
    (hfenced : (f (L.jobs r)).fenced = (L.jobs r).fenced) : Same L (L.modify r f) :=
  ⟨rfl, rfl, rfl, rfl, fun _ h => h, apply_update Job.attempt hattempt,
    apply_update Job.lease hlease, apply_update Job.run hrun, apply_update Job.fenced hfenced,
    fun _ => rfl⟩

theorem same_ack (L : Ledger) (a : JsString) (n : Nat) (u : Option Ref) :
    Same L ((L.ack a n).unpause u) := by
  cases u with
  | none =>
      exact ⟨rfl, rfl, rfl, rfl, fun _ h => h, fun _ => rfl, fun _ => rfl, fun _ => rfl,
        fun _ => rfl, fun _ => rfl⟩
  | some r =>
      exact ⟨rfl, rfl, rfl, rfl, fun _ h => h, apply_update Job.attempt rfl,
        apply_update Job.lease rfl, apply_update Job.run rfl, apply_update Job.fenced rfl,
        fun _ => rfl⟩

theorem same_event (L : Ledger) (r : Ref) (row : EventRow) (events : Table EventRow.key)
    (pause : Bool) : Same L (L.event r row events pause) := by
  refine ⟨rfl, rfl, rfl, rfl, fun _ h => h, apply_update Job.attempt rfl,
    apply_update Job.lease rfl, apply_update Job.run rfl, apply_update Job.fenced rfl, ?_⟩
  intro b
  by_cases hb : b = row.attemptId
  · subst hb
    simp only [Ledger.event, Function.update_self, Option.map_map]
    congr 1
    funext d
    simp only [Function.comp]
    split <;> rfl
  · simp [Ledger.event, Function.update_of_ne hb]

theorem same_cancel (L : Ledger) (r : Ref) :
    Same L { L with cancelled := {q | (L.jobs r).run = some q} ∪ L.cancelled } :=
  ⟨rfl, rfl, rfl, rfl, Set.subset_union_right, fun _ => rfl, fun _ => rfl, fun _ => rfl,
    fun _ => rfl, fun _ => rfl⟩

theorem same_tick (L : Ledger) (now : Int) : Same L { L with now } :=
  ⟨rfl, rfl, rfl, rfl, fun _ h => h, fun _ => rfl, fun _ => rfl, fun _ => rfl, fun _ => rfl,
    fun _ => rfl⟩

/-! ### The blocks a step is made of -/

theorem Sound.unregister (hs : Sound L) (a : JsString) : Sound (L.unregister a) := by
  have hlive : ∀ b r, (L.unregister a).live b = some r → L.live b = some r := by
    intro b r hl
    by_cases hb : b = a
    · simp [Ledger.unregister, hb] at hl
    · simpa only [Ledger.unregister, Function.update_of_ne hb] using hl
  exact
    { attempt := fun b r hl => hs.attempt b r (hlive b r hl)
      live_lt := fun b r hl => hs.live_lt b r (hlive b r hl)
      unfenced := fun b r hl => hs.unfenced b r (hlive b r hl)
      row := fun b r hl => hs.row b r (hlive b r hl)
      runs_lt := hs.runs_lt
      ended_lt := hs.ended_lt
      run_self := hs.run_self
      running := hs.running
      cancelled := hs.cancelled }

theorem Sound.clear (hs : Sound L) (a : JsString) : Sound (L.clear a) :=
  hs.of_same ⟨rfl, rfl, rfl, rfl, fun _ h => h, fun _ => rfl, fun _ => rfl, fun _ => rfl,
    fun _ => rfl, fun _ => rfl⟩

theorem Sound.setResult (hs : Sound L) (a : JsString) (res : StoredResult) :
    Sound (L.setResult a res) :=
  hs.of_same ⟨rfl, rfl, rfl, rfl, fun _ h => h, fun _ => rfl, fun _ => rfl, fun _ => rfl,
    fun _ => rfl, fun _ => rfl⟩

/-- An attempt without a live job can go. -/
theorem Sound.forget (hs : Sound L) (hlive : L.live a = none) : Sound (L.forget a) :=
  { hs with
    row := by
      intro b r hl
      have hb : b ≠ a := by
        intro hc
        rw [hc] at hl
        exact absurd (hlive.symm.trans hl) (by simp)
      simp only [Ledger.forget, Function.update_of_ne hb]
      exact hs.row b r hl }

theorem Sound.rotate (hs : Sound L) {hit : Option Ref} (hits : L.Hits a lease hit) :
    Sound (L.rotate a lease hit) := by
  cases hit with
  | none =>
      refine { hs with row := ?_ }
      intro b r hl
      obtain ⟨row, hrow, hlease⟩ := hs.row b r hl
      by_cases hb : b = a
      · subst hb
        refine ⟨{ row with lease }, ?_, (hits.miss rfl r hl).symm⟩
        simp [Ledger.rotate, setLease, hrow]
      · refine ⟨row, ?_, hlease⟩
        simpa [Ledger.rotate, setLease, Function.update_of_ne hb] using hrow
  | some q =>
      have hq := hits.live q rfl
      have hjob : ∀ {β : Type} (g : Job → β), (∀ j p l, g { j with prev := p, lease := l } = g j) →
          ∀ r, g ((L.rotate a lease (some q)).jobs r) = g (L.jobs r) := by
        intro β g hg r
        exact apply_update g (hg _ _ _) r
      refine
        { attempt := ?_
          live_lt := hs.live_lt
          unfenced := ?_
          row := ?_
          runs_lt := hs.runs_lt
          ended_lt := hs.ended_lt
          run_self := ?_
          running := ?_
          cancelled := ?_ }
      · intro b r hl
        rw [hjob Job.attempt fun _ _ _ => rfl]
        exact hs.attempt b r hl
      · intro b r hl
        rw [hjob Job.fenced fun _ _ _ => rfl]
        exact hs.unfenced b r hl
      · intro b r hl
        obtain ⟨row, hrow, hlease⟩ := hs.row b r hl
        by_cases hb : b = a
        · subst hb
          have hr : r = q := Option.some.inj (hl.symm.trans hq)
          refine ⟨{ row with lease }, ?_, ?_⟩
          · simp [Ledger.rotate, modify, setLease, hrow]
          · simp [Ledger.rotate, modify, hr]
        · have hr : r ≠ q := by
            intro hc
            exact hb ((hs.attempt b r hl).symm.trans (hc ▸ hs.attempt a q hq))
          refine ⟨row, ?_, ?_⟩
          · simpa [Ledger.rotate, modify, setLease, Function.update_of_ne hb] using hrow
          · simpa [Ledger.rotate, modify, setLease, Function.update_of_ne hr] using hlease
      · intro r p hp
        rw [hjob Job.run fun _ _ _ => rfl] at hp
        exact hs.run_self r p hp
      · intro r hr
        rw [hjob Job.run fun _ _ _ => rfl]
        exact hs.running r hr
      · intro r hr hf
        rw [hjob Job.fenced fun _ _ _ => rfl] at hf
        exact hs.cancelled r hr hf

theorem Sound.accept (hs : Sound L) (started : Bool) (hlive : L.live a = none) :
    Sound (L.accept a lease started) := by
  have hold : ∀ r, r < L.next → (L.accept a lease started).jobs r = L.jobs r := by
    intro r hr
    exact Function.update_of_ne (Nat.ne_of_lt hr) _ _
  have hnew : ∀ b r, (L.accept a lease started).live b = some r →
      (b = a ∧ r = L.next) ∨ (b ≠ a ∧ L.live b = some r) := by
    intro b r hl
    by_cases hb : b = a
    · subst hb
      simp only [Ledger.accept, Function.update_self, Option.some.injEq] at hl
      exact Or.inl ⟨rfl, hl.symm⟩
    · simp only [Ledger.accept, Function.update_of_ne hb] at hl
      exact Or.inr ⟨hb, hl⟩
  have hruns : ∀ r ∈ (L.accept a lease started).runs, r = L.next ∨ r ∈ L.runs := by
    intro r hr
    unfold Ledger.accept at hr
    cases started with
    | false => exact Or.inr hr
    | true => exact hr
  have hactive : ∀ r, (L.accept a lease started).Active r →
      (r = L.next ∧ started = true) ∨ L.Active r := by
    intro r hr
    obtain ⟨hrun, hend⟩ := hr
    cases started with
    | false => exact Or.inr ⟨hrun, hend⟩
    | true =>
        rcases hruns r hrun with h | h
        · exact Or.inl ⟨h, rfl⟩
        · exact Or.inr ⟨h, hend⟩
  refine
    { attempt := ?_
      live_lt := ?_
      unfenced := ?_
      row := ?_
      runs_lt := ?_
      ended_lt := fun r hr => Nat.lt_succ_of_lt (hs.ended_lt r hr)
      run_self := ?_
      running := ?_
      cancelled := ?_ }
  · intro b r hl
    rcases hnew b r hl with ⟨rfl, rfl⟩ | ⟨-, h⟩
    · simp [Ledger.accept]
    · rw [hold r (hs.live_lt b r h)]
      exact hs.attempt b r h
  · intro b r hl
    rcases hnew b r hl with ⟨-, rfl⟩ | ⟨-, h⟩
    · exact Nat.lt_succ_self _
    · exact Nat.lt_succ_of_lt (hs.live_lt b r h)
  · intro b r hl
    rcases hnew b r hl with ⟨-, rfl⟩ | ⟨-, h⟩
    · simp [Ledger.accept]
    · rw [hold r (hs.live_lt b r h)]
      exact hs.unfenced b r h
  · intro b r hl
    rcases hnew b r hl with ⟨rfl, rfl⟩ | ⟨hb, h⟩
    · exact ⟨⟨lease, 0⟩, by simp [Ledger.accept], by simp [Ledger.accept]⟩
    · rw [hold r (hs.live_lt b r h)]
      simp only [Ledger.accept, Function.update_of_ne hb]
      exact hs.row b r h
  · intro r hr
    rcases hruns r hr with rfl | h
    · exact Nat.lt_succ_self _
    · exact Nat.lt_succ_of_lt (hs.runs_lt r h)
  · intro r q hq
    by_cases hr : r = L.next
    · subst hr
      simp only [Ledger.accept, Function.update_self] at hq
      split at hq
      · exact (Option.some.inj hq).symm
      · exact absurd hq (by simp)
    · simp only [Ledger.accept, Function.update_of_ne hr] at hq
      exact hs.run_self r q hq
  · intro r hr
    rcases hactive r hr with ⟨rfl, rfl⟩ | h
    · simp [Ledger.accept]
    · rw [hold r (hs.runs_lt r h.1)]
      exact hs.running r h
  · intro r hr hf
    rcases hactive r hr with ⟨rfl, rfl⟩ | h
    · simp [Ledger.accept] at hf
    · rw [hold r (hs.runs_lt r h.1)] at hf
      exact hs.cancelled r h hf

/-- Cutting a job off and taking it out of the registry. -/
theorem Sound.fenceOff (hs : Sound L) {ended : Bool} (hlive : L.live a = some r)
    (hactive : ended = true → L.Active r) : Sound ((L.fence r ended).unregister a) := by
  have hold : ∀ q, q ≠ r → ((L.fence r ended).unregister a).jobs q = L.jobs q := by
    intro q hq
    exact Function.update_of_ne hq _ _
  have hnew : ∀ b q, ((L.fence r ended).unregister a).live b = some q →
      L.live b = some q ∧ q ≠ r := by
    intro b q hl
    by_cases hb : b = a
    · simp [Ledger.unregister, hb] at hl
    · simp only [Ledger.unregister, Ledger.fence, Function.update_of_ne hb] at hl
      refine ⟨hl, ?_⟩
      intro hc
      exact hb ((hs.attempt b q hl).symm.trans (hc ▸ hs.attempt a r hlive))
  have hback : ∀ q, ((L.fence r ended).unregister a).Active q →
      L.Active q ∧ (q = r → ended = false) := by
    intro q hq
    obtain ⟨hrun, hend⟩ := hq
    cases ended with
    | false => exact ⟨⟨hrun, hend⟩, fun _ => rfl⟩
    | true =>
        refine ⟨⟨hrun, fun hc => hend (Set.mem_insert_of_mem _ hc)⟩, ?_⟩
        intro hc
        exact absurd (hc ▸ Set.mem_insert _ _) hend
  refine
    { attempt := ?_
      live_lt := fun b q hl => hs.live_lt b q (hnew b q hl).1
      unfenced := ?_
      row := ?_
      runs_lt := hs.runs_lt
      ended_lt := ?_
      run_self := ?_
      running := ?_
      cancelled := ?_ }
  · intro b q hl
    rw [hold q (hnew b q hl).2]
    exact hs.attempt b q (hnew b q hl).1
  · intro b q hl
    rw [hold q (hnew b q hl).2]
    exact hs.unfenced b q (hnew b q hl).1
  · intro b q hl
    rw [hold q (hnew b q hl).2]
    exact hs.row b q (hnew b q hl).1
  · intro q hq
    cases ended with
    | false => exact hs.ended_lt q hq
    | true =>
        rcases hq with rfl | hq
        · exact hs.live_lt a q hlive
        · exact hs.ended_lt q hq
  · intro q p hp
    by_cases hq : q = r
    · subst hq
      simp only [Ledger.unregister, Ledger.fence, Function.update_self] at hp
      split at hp
      · exact absurd hp (by simp)
      · exact hs.run_self q p hp
    · rw [hold q hq] at hp
      exact hs.run_self q p hp
  · intro q hq
    obtain ⟨hact, hne⟩ := hback q hq
    by_cases hqr : q = r
    · simp only [Ledger.unregister, Ledger.fence, hqr, Function.update_self, hne hqr]
      exact hqr ▸ hs.running q hact
    · rw [hold q hqr]
      exact hs.running q hact
  · intro q hq hf
    obtain ⟨hact, -⟩ := hback q hq
    by_cases hqr : q = r
    · exact Or.inl (hqr ▸ hs.running q hact)
    · rw [hold q hqr] at hf
      exact Or.inr (hs.cancelled q hact hf)

theorem Sound.finish (hs : Sound L) (hactive : L.Active r) : Sound (L.finish r) := by
  have hjob : ∀ {β : Type} (g : Job → β), (∀ j o, g { j with run := o } = g j) →
      ∀ q, g ((L.finish r).jobs q) = g (L.jobs q) := by
    intro β g hg q
    exact apply_update g (hg _ _) q
  have hback : ∀ q, (L.finish r).Active q → L.Active q ∧ q ≠ r := by
    intro q hq
    obtain ⟨hrun, hend⟩ := hq
    refine ⟨⟨hrun, fun hc => hend (Set.mem_insert_of_mem _ hc)⟩, ?_⟩
    intro hc
    exact hend (hc ▸ Set.mem_insert _ _)
  refine
    { attempt := ?_
      live_lt := hs.live_lt
      unfenced := ?_
      row := ?_
      runs_lt := hs.runs_lt
      ended_lt := ?_
      run_self := ?_
      running := ?_
      cancelled := ?_ }
  · intro b q hl
    rw [hjob Job.attempt fun _ _ => rfl]
    exact hs.attempt b q hl
  · intro b q hl
    rw [hjob Job.fenced fun _ _ => rfl]
    exact hs.unfenced b q hl
  · intro b q hl
    rw [hjob Job.lease fun _ _ => rfl]
    exact hs.row b q hl
  · intro q hq
    rcases hq with rfl | hq
    · exact hs.runs_lt q hactive.1
    · exact hs.ended_lt q hq
  · intro q p hp
    by_cases hq : q = r
    · simp [Ledger.finish, modify, hq] at hp
    · simp only [Ledger.finish, modify, Function.update_of_ne hq] at hp
      exact hs.run_self q p hp
  · intro q hq
    obtain ⟨hact, hne⟩ := hback q hq
    simp only [Ledger.finish, modify, Function.update_of_ne hne]
    exact hs.running q hact
  · intro q hq hf
    rw [hjob Job.fenced fun _ _ => rfl] at hf
    exact hs.cancelled q (hback q hq).1 hf

theorem Sound.leave (hs : Sound L) (r : Ref) : Sound (L.leave r) := by
  unfold Ledger.leave
  split
  · exact hs.unregister _
  · exact hs

@[simp] theorem live_unregister (L : Ledger) (a : JsString) : (L.unregister a).live a = none :=
  Function.update_self _ _ _

/-! ### Every step -/

/-- **Every step keeps the ledger sound.** -/
theorem Sound.step {op : Op} (h : Step sha L op L') (hs : Sound L) : Sound L' := by
  cases h with
  | idle => exact hs
  | accept row live => exact hs.accept _ live
  | @ack a n u live => exact hs.of_same (same_ack L a n u)
  | @settle a res result => exact ((hs.unregister a).clear a).forget (live_unregister L a)
  | rotate hits => exact hs.rotate hits
  | resend hits result id newLease good => exact (hs.rotate hits).setResult _ _
  | @revoke a r ended live active =>
      exact (hs.fenceOff live active).forget (live_unregister (L.fence r ended) a)
  | @abandonLive a r ended live active =>
      exact ((hs.fenceOff live active).clear a).forget (live_unregister (L.fence r ended) a)
  | @abandonRow a live => exact (hs.clear a).forget live
  | @ackPending a => exact ((hs.unregister a).clear a).forget (live_unregister L a)
  | @event r row pause events run unfenced id seq insert =>
      exact hs.of_same (same_event L r row events pause)
  | burn run unfenced taken => exact hs.of_same (same_modify rfl rfl rfl rfl)
  | finishFenced active fenced => exact (hs.finish active).leave _
  | finishLost active unfenced => exact hs.finish active
  | finishSaved active unfenced id lease good => exact ((hs.finish active).setResult _ _).leave _
  | @cancel a r live => exact hs.of_same (same_cancel L r)
  | @tick ms => exact hs.of_same (same_tick L (L.now + ms))
  | restart =>
      exact
        { attempt := fun a r hl => absurd hl (by simp)
          live_lt := fun a r hl => absurd hl (by simp)
          unfenced := fun a r hl => absurd hl (by simp)
          row := fun a r hl => absurd hl (by simp)
          runs_lt := fun r hr => absurd hr (Set.notMem_empty r)
          ended_lt := hs.ended_lt
          run_self := hs.run_self
          running := fun r hr => absurd hr.1 (Set.notMem_empty r)
          cancelled := fun r hr => absurd hr.1 (Set.notMem_empty r) }

end HuginAgent.Ledger
