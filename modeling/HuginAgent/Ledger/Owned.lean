/-
Every run that is not cut off is the run of a registered job.

`Owned` is what keeps an agent under control: a run that may still call back and
whose job is not fenced is registered under its attempt, a registered attempt has
no result yet, and a result has its attempt on record.  One step can break it.  The
server confirms a pending result by `ackPending`, and the manager takes the attempt
out of the registry without looking whether a run is live in it.  `Careful` rules
that step out, and then every step keeps `Owned`.
-/
import HuginAgent.Ledger.Effects

namespace HuginAgent.Ledger

variable {sha : JsString → JsString} {L L' : Ledger} {a lease : JsString} {r : Ref}

structure Owned (L : Ledger) : Prop where
  registered : ∀ r, L.Active r → (L.jobs r).fenced = false → L.live (L.jobs r).attempt = some r
  noResult : ∀ a r, L.live a = some r → L.results a = none
  resultRow : ∀ a, (L.results a).isSome → (L.rows a).isSome

/-- A result that is confirmed wholesale has no live run. -/
def Careful (L : Ledger) : Op → Prop
  | .ackPending a => ∀ r, L.live a = some r → (L.jobs r).run = none
  | _ => True

theorem Same.rows_isSome (h : Same L L') (a : JsString) :
    (L'.rows a).isSome = (L.rows a).isSome := by
  have := congrArg Option.isSome (h.rows a)
  rwa [Option.isSome_map, Option.isSome_map] at this

theorem Owned.of_same (ho : Owned L) (h : Same L L') (hresults : L'.results = L.results) :
    Owned L' where
  registered := by
    intro r hr hf
    rw [h.attempt, h.live]
    exact ho.registered r (h.active.mp hr) (h.fenced r ▸ hf)
  noResult := by
    intro a r hl
    rw [hresults]
    exact ho.noResult a r (h.live ▸ hl)
  resultRow := by
    intro a ha
    rw [h.rows_isSome]
    exact ho.resultRow a (hresults ▸ ha)

theorem Owned.rotate (ho : Owned L) (a lease : JsString) (hit : Option Ref) :
    Owned (L.rotate a lease hit) := by
  cases hit with
  | none =>
      exact ⟨ho.registered, ho.noResult, fun b hb =>
        (rows_isSome_setLease L a lease b).trans (ho.resultRow b hb)⟩
  | some q =>
      refine ⟨?_, ho.noResult, fun b hb =>
        (rows_isSome_setLease L a lease b).trans (ho.resultRow b hb)⟩
      intro r hr hf
      have hattempt : ((L.rotate a lease (some q)).jobs r).attempt = (L.jobs r).attempt :=
        apply_update Job.attempt (j := { L.jobs q with prev := _, lease }) rfl r
      have hfenced : ((L.rotate a lease (some q)).jobs r).fenced = (L.jobs r).fenced :=
        apply_update Job.fenced (j := { L.jobs q with prev := _, lease }) rfl r
      rw [hattempt]
      exact ho.registered r hr (hfenced ▸ hf)

/-- A change of the result of an attempt that has one, or that is not live any more. -/
theorem Owned.setResult (ho : Owned L) {res : StoredResult} (hlive : L.live a = none)
    (hrow : (L.rows a).isSome) : Owned (L.setResult a res) where
  registered := ho.registered
  noResult := by
    intro b r hl
    have hb : b ≠ a := by
      intro hc
      rw [hc] at hl
      exact absurd (hlive.symm.trans hl) (by simp)
    simp only [Ledger.setResult, Function.update_of_ne hb]
    exact ho.noResult b r hl
  resultRow := by
    intro b hres
    by_cases hb : b = a
    · exact hb ▸ hrow
    · simp only [Ledger.setResult, Function.update_of_ne hb] at hres
      exact ho.resultRow b hres

/-- An attempt whose runs are all cut off or over goes, with its result. -/
theorem Owned.drop (ho : Owned L)
    (hruns : ∀ r, L.Active r → (L.jobs r).fenced = false → (L.jobs r).attempt ≠ a) :
    Owned (((L.unregister a).clear a).forget a) where
  registered := by
    intro r hr hf
    have hne := hruns r hr hf
    simp only [forget, clear, unregister, Function.update_of_ne hne]
    exact ho.registered r hr hf
  noResult := by
    intro b r hl
    by_cases hb : b = a
    · simp [forget, clear, unregister, hb] at hl
    · simp only [forget, clear, unregister, Function.update_of_ne hb] at hl ⊢
      exact ho.noResult b r hl
  resultRow := by
    intro b hres
    by_cases hb : b = a
    · simp [forget, clear, hb] at hres
    · simp only [forget, clear, unregister, Function.update_of_ne hb] at hres ⊢
      exact ho.resultRow b hres

/-- A live job is cut off and leaves; its attempt has no result. -/
theorem Owned.fenceOff (ho : Owned L) {ended : Bool} (hlive : L.live a = some r) :
    Owned ((L.fence r ended).unregister a) := by
  have hback : ∀ q, ((L.fence r ended).unregister a).Active q →
      (((L.fence r ended).unregister a).jobs q).fenced = false →
      q ≠ r ∧ L.Active q ∧ ((L.fence r ended).unregister a).jobs q = L.jobs q := by
    intro q hq hf
    have hqr : q ≠ r := by
      intro hc
      simp [unregister, fence, hc] at hf
    refine ⟨hqr, ⟨hq.1, ?_⟩, Function.update_of_ne hqr _ _⟩
    intro hc
    cases ended with
    | false => exact hq.2 hc
    | true => exact hq.2 (Set.mem_insert_of_mem _ hc)
  refine ⟨?_, ?_, ho.resultRow⟩
  · intro q hq hf
    obtain ⟨hqr, hact, hjob⟩ := hback q hq hf
    rw [hjob] at hf ⊢
    have hreg := ho.registered q hact hf
    have hne : (L.jobs q).attempt ≠ a := by
      intro hc
      rw [hc] at hreg
      exact hqr (Option.some.inj (hreg.symm.trans hlive))
    simp only [unregister, fence, Function.update_of_ne hne]
    exact hreg
  · intro b q hl
    by_cases hb : b = a
    · simp [unregister, hb] at hl
    · simp only [unregister, fence, Function.update_of_ne hb] at hl
      exact ho.noResult b q hl

/-- After the job has left, its attempt can go. -/
theorem Owned.forget (ho : Owned L) (hresult : L.results a = none) : Owned (L.forget a) where
  registered := ho.registered
  noResult := ho.noResult
  resultRow := by
    intro b hres
    by_cases hb : b = a
    · rw [hb] at hres
      exact absurd hres (by simp [Ledger.forget, hresult])
    · simp only [Ledger.forget, Function.update_of_ne hb]
      exact ho.resultRow b hres

theorem Owned.clear (ho : Owned L) : Owned (L.clear a) where
  registered := ho.registered
  noResult := by
    intro b r hl
    by_cases hb : b = a
    · simp [Ledger.clear, hb]
    · simp only [Ledger.clear, Function.update_of_ne hb]
      exact ho.noResult b r hl
  resultRow := by
    intro b hres
    by_cases hb : b = a
    · simp [Ledger.clear, hb] at hres
    · simp only [Ledger.clear, Function.update_of_ne hb] at hres
      exact ho.resultRow b hres

theorem active_finish {q : Ref} (h : (L.finish r).Active q) : L.Active q ∧ q ≠ r := by
  refine ⟨⟨h.1, fun hc => h.2 (Set.mem_insert_of_mem _ hc)⟩, ?_⟩
  intro hc
  exact h.2 (hc ▸ Set.mem_insert _ _)

theorem Owned.finish (ho : Owned L) (r : Ref) : Owned (L.finish r) where
  registered := by
    intro q hq hf
    obtain ⟨hact, hne⟩ := active_finish hq
    have hjob : (L.finish r).jobs q = L.jobs q := Function.update_of_ne hne _ _
    rw [hjob] at hf ⊢
    exact ho.registered q hact hf
  noResult := ho.noResult
  resultRow := ho.resultRow

/-- Leaving the registry takes nobody's place but one's own. -/
theorem Owned.leave (ho : Owned L) (hdone : ¬ L.Active r) : Owned (L.leave r) := by
  unfold Ledger.leave
  split
  · rename_i hcur
    refine ⟨?_, ?_, ho.resultRow⟩
    · intro q hq hf
      have hreg := ho.registered q hq hf
      have hne : (L.jobs q).attempt ≠ (L.jobs r).attempt := by
        intro hc
        rw [hc] at hreg
        exact hdone (Option.some.inj (hreg.symm.trans hcur) ▸ hq)
      simp only [unregister, Function.update_of_ne hne]
      exact hreg
    · intro b q hl
      by_cases hb : b = (L.jobs r).attempt
      · simp [unregister, hb] at hl
      · simp only [unregister, Function.update_of_ne hb] at hl
        exact ho.noResult b q hl
  · exact ho

theorem attempt_finish_job (L : Ledger) (r q : Ref) :
    ((L.finish r).jobs q).attempt = (L.jobs q).attempt :=
  apply_update Job.attempt (j := { L.jobs r with run := none }) rfl q

theorem Owned.accept (ho : Owned L) {started : Bool} (hrow : L.rows a = none)
    (hlive : L.live a = none) : Owned (L.accept a lease started) where
  registered := by
    intro q hq hf
    by_cases hqn : q = L.next
    · simp [Ledger.accept, hqn]
    · have hact : L.Active q := by
        refine ⟨?_, hq.2⟩
        have hrun := hq.1
        unfold Ledger.accept at hrun
        cases started with
        | false => exact hrun
        | true => exact hrun.resolve_left hqn
      have hjob : (L.accept a lease started).jobs q = L.jobs q := Function.update_of_ne hqn _ _
      rw [hjob] at hf ⊢
      have hreg := ho.registered q hact hf
      have hne : (L.jobs q).attempt ≠ a := by
        intro hc
        rw [hc] at hreg
        exact absurd (hlive.symm.trans hreg) (by simp)
      simp only [Ledger.accept, Function.update_of_ne hne]
      exact hreg
  noResult := by
    intro b q hl
    by_cases hb : b = a
    · subst hb
      cases hres : L.results b with
      | none => exact hres
      | some res =>
          have := ho.resultRow b (by rw [hres]; rfl)
          rw [hrow] at this
          exact absurd this (by simp)
    · simp only [Ledger.accept, Function.update_of_ne hb] at hl
      exact ho.noResult b q hl
  resultRow := by
    intro b hres
    by_cases hb : b = a
    · simp [Ledger.accept, hb]
    · simp only [Ledger.accept, Function.update_of_ne hb]
      exact ho.resultRow b hres

/-- A result on record means that no job is live under its attempt. -/
theorem Owned.live_none (ho : Owned L) {res : StoredResult} (h : L.results a = some res) :
    L.live a = none := by
  cases hl : L.live a with
  | none => rfl
  | some r => exact absurd ((ho.noResult a r hl).symm.trans h) (by simp)

/-- **A stored result stays as it is, goes, or is sent again.** -/
theorem Owned.result_kept (ho : Owned L) {op : Op} (h : Step sha L op L') {old : StoredResult}
    (hres : L.results a = some old) :
    L'.results a = some old ∨ L'.results a = none ∨
      ∃ lease hit res, op = .resend a lease hit res ∧ L'.results a = some res := by
  rcases h.results a with (heq | hnone) | ⟨res, hsaved, hid, hnew⟩
  · exact Or.inl (heq.trans hres)
  · exact Or.inr (Or.inl hnone)
  · cases h with
    | @resend b lease hit old' res' hits result id newLease good =>
        obtain rfl : res' = res := Option.some.inj hsaved
        obtain rfl : b = a := id.symm.trans hid
        exact Or.inr (Or.inr ⟨lease, hit, res', rfl, hnew⟩)
    | @finishSaved r res' active unfenced id lease good =>
        -- its attempt is registered and has no result
        obtain rfl : res' = res := Option.some.inj hsaved
        have hlive := ho.registered r active unfenced
        rw [← id, hid] at hlive
        exact absurd ((ho.noResult a r hlive).symm.trans hres) (by simp)
    | _ => cases hsaved

theorem Owned.live_of_active (ho : Owned L) {q : Ref} (hact : L.Active q)
    (hf : (L.jobs q).fenced = false) (hid : (L.jobs q).attempt = a) : L.live a = some q :=
  hid ▸ ho.registered q hact hf

/-- **Every careful step keeps the runs owned.** -/
theorem Owned.step {op : Op} (h : Step sha L op L') (hs : Sound L) (hc : Careful L op)
    (ho : Owned L) : Owned L' := by
  cases h with
  | idle => exact ho
  | accept row live => exact ho.accept row live
  | @ack a n u live =>
      refine ho.of_same (same_ack L a n u) ?_
      cases u <;> rfl
  | @settle a res result =>
      refine ho.drop ?_
      intro q hq hf hid
      exact absurd ((ho.live_none result).symm.trans (ho.live_of_active hq hf hid)) (by simp)
  | @rotate a lease hit hits => exact ho.rotate a lease hit
  | @resend a lease hit old res hits result id newLease good =>
      refine (ho.rotate a lease hit).setResult ?_ ?_
      · cases hit with
        | none => exact ho.live_none result
        | some q => exact ho.live_none result
      · have hrow := ho.resultRow a (by rw [result]; rfl)
        cases hit with
        | none => exact (rows_isSome_setLease L a lease a).trans hrow
        | some q => exact (rows_isSome_setLease L a lease a).trans hrow
  | @revoke a r ended live active => exact (ho.fenceOff live).forget (ho.noResult a r live)
  | @abandonLive a r ended live active =>
      exact (ho.fenceOff live).clear.forget (Function.update_self _ _ _)
  | @abandonRow a live => exact ho.clear.forget (Function.update_self _ _ _)
  | @ackPending a =>
      refine ho.drop ?_
      intro q hq hf hid
      have hrun := hs.running q hq
      rw [hc q (ho.live_of_active hq hf hid)] at hrun
      exact absurd hrun (by simp)
  | @event r row pause events run unfenced id seq insert =>
      exact ho.of_same (same_event L r row events pause) rfl
  | burn run unfenced taken => exact ho.of_same (same_modify rfl rfl rfl rfl) rfl
  | finishFenced active fenced => exact (ho.finish _).leave fun hc => (active_finish hc).2 rfl
  | finishLost active unfenced => exact ho.finish _
  | @finishSaved r res active unfenced id lease good =>
      have hlive := ho.registered r active unfenced
      obtain ⟨row, hrow, -⟩ := hs.row _ r hlive
      -- the job leaves as its result arrives, so the order of the two does not matter
      have hswap : ((L.finish r).setResult (L.jobs r).attempt res).leave r =
          ((L.finish r).leave r).setResult (L.jobs r).attempt res := by
        have hcur : (L.finish r).live ((L.finish r).jobs r).attempt = some r := by
          rw [attempt_finish_job]
          exact hlive
        have hcur' : ((L.finish r).setResult (L.jobs r).attempt res).live
            (((L.finish r).setResult (L.jobs r).attempt res).jobs r).attempt = some r := hcur
        rw [Ledger.leave, if_pos hcur', Ledger.leave, if_pos hcur]
        rfl
      rw [hswap]
      have hleft := (ho.finish r).leave fun hc => (active_finish hc).2 rfl
      have hcur : (L.finish r).live ((L.finish r).jobs r).attempt = some r := by
        rw [attempt_finish_job]
        exact hlive
      refine hleft.setResult ?_ ?_
      · rw [Ledger.leave, if_pos hcur, attempt_finish_job]
        exact Function.update_self _ _ _
      · rw [Ledger.leave, if_pos hcur]
        show (L.rows (L.jobs r).attempt).isSome = true
        rw [hrow]
        rfl
  | @cancel a r live => exact ho.of_same (same_cancel L r) rfl
  | @tick ms => exact ho.of_same (same_tick L (L.now + ms)) rfl
  | restart =>
      exact ⟨fun r hr => absurd hr.1 (Set.notMem_empty r), fun a r hl => absurd hl (by simp),
        ho.resultRow⟩

end HuginAgent.Ledger
