/-
What is stored of a stream is its end.

Four things say how far the stream of an attempt has got: the `seq` of its job, the
`lastSeq` of its row, the highest `ack_seq` that was accepted, and the events that are
stored.  `Contiguous` ties them together: stored is the block from the ack to
`lastSeq`, without a gap, and the job goes on after `lastSeq`.  It rests on `Owned`,
since an event of a job that is not registered any more would count on in a row that
belongs to another job, and on runs that are silent once they have said they are done.
-/
import HuginAgent.Ledger.Owned

namespace HuginAgent.Ledger

variable {sha : JsString → JsString} {L L' : Ledger} {op : Op} {a : JsString} {r : Ref}
  {acked : JsString → Nat}

/-- The stored events of an attempt. -/
def eventsOf (L : Ledger) (a : JsString) : List EventRow :=
  L.events.rows.filter fun e => e.attemptId = a

/-- The highest `ack_seq` accepted for each attempt since it is on record.  An ack counts as far
as there was something to acknowledge. -/
def Op.noteAck (L : Ledger) (acked : JsString → Nat) : Op → JsString → Nat
  | .accept a _ _ => Function.update acked a 0
  | .ack a n _ =>
      Function.update acked a (max (acked a) (min n (((L.rows a).map Row.lastSeq).getD 0)))
  | _ => acked

/-- A run that has said it is done emits nothing. -/
def Orderly (L : Ledger) : Op → Prop
  | .event r _ _ | .burn r => r ∉ L.ended
  | _ => True

structure Contiguous (L : Ledger) (acked : JsString → Nat) : Prop where
  block : ∀ a row, L.rows a = some row → acked a ≤ row.lastSeq ∧
    (L.eventsOf a).map EventRow.seq = List.range' (acked a + 1) (row.lastSeq - acked a)
  bare : ∀ a, L.rows a = none → L.eventsOf a = []
  seq : ∀ a r row, L.live a = some r → L.rows a = some row → (L.jobs r).seq = row.lastSeq

/-! ### Blocks of numbers -/

theorem range'_filter_le {s m n : Nat} (h : s + m ≤ n + 1) :
    (List.range' s m).filter (fun i => !decide (i ≤ n)) = [] := by
  rw [List.filter_eq_nil_iff]
  intro i hi
  have := List.mem_range'_1.mp hi
  have hle : i ≤ n := by omega
  simp [hle]

theorem range'_filter_gt {s m n : Nat} (h : n < s) :
    (List.range' s m).filter (fun i => !decide (i ≤ n)) = List.range' s m := by
  rw [List.filter_eq_self]
  intro i hi
  have := List.mem_range'_1.mp hi
  have hlt : ¬ i ≤ n := by omega
  simp [hlt]

/-- An ack takes the front of a block. -/
theorem range'_filter (c last n : Nat) (hc : c ≤ last) :
    (List.range' (c + 1) (last - c)).filter (fun i => !decide (i ≤ n)) =
      List.range' (max c (min n last) + 1) (last - max c (min n last)) := by
  by_cases h : n ≤ c
  · have hmax : max c (min n last) = c := by omega
    rw [hmax]
    exact range'_filter_gt (by omega)
  · have hsplit : List.range' (c + 1) (last - c) =
        List.range' (c + 1) (min n last - c) ++ List.range' (min n last + 1) (last - min n last) := by
      have hstart : min n last + 1 = c + 1 + 1 * (min n last - c) := by omega
      rw [hstart, List.range'_append]
      congr 1
      omega
    have hmax : max c (min n last) = min n last := by omega
    rw [hsplit, List.filter_append, range'_filter_le (by omega), List.nil_append, hmax]
    by_cases hn : n ≤ last
    · exact range'_filter_gt (by omega)
    · have hzero : last - min n last = 0 := by omega
      rw [hzero]
      rfl

/-! ### The events of one attempt -/

theorem Step.eventsOf (h : Step sha L op L') (a : JsString) :
    L'.eventsOf a = (L.eventsOf a).filter (fun e => !op.releases e.key) ++
      op.stored.toList.filter fun e => e.attemptId = a := by
  rw [Ledger.eventsOf, h.events_rows, List.filter_append, Ledger.eventsOf, List.filter_filter,
    List.filter_filter]
  congr 2
  funext e
  exact Bool.and_comm _ _

theorem Step.eventsOf_kept (h : Step sha L op L') (hrel : ∀ n, op.releases (a, n) = false) :
    L'.eventsOf a = L.eventsOf a ++ op.stored.toList.filter fun e => e.attemptId = a := by
  rw [h.eventsOf a]
  congr 1
  rw [List.filter_eq_self]
  intro e he
  have hid : e.attemptId = a := of_decide_eq_true (List.mem_filter.mp he).2
  have := hrel e.seq
  rw [← hid] at this
  simpa [EventRow.key] using this

theorem Step.eventsOf_forgets (h : Step sha L op L') (hop : op.forgets a = true) :
    L'.eventsOf a = [] := by
  have hrel : ∀ n, op.releases (a, n) = true := by
    intro n
    cases op with
    | ack b m u => cases hop
    | _ => exact hop
  have hstored : op.stored = none := by
    cases op with
    | event r row pause => cases hop
    | _ => rfl
  rw [h.eventsOf a, hstored, Option.toList_none, List.filter_nil, List.append_nil,
    List.filter_eq_nil_iff]
  intro e he
  have hid : e.attemptId = a := of_decide_eq_true (List.mem_filter.mp he).2
  simp [EventRow.key, hid, hrel]

/-- The row of a live attempt after a step. -/
theorem Step.row_of_live (h : Step sha L op L') (hlive : L.live a = some r) {row' : Row}
    (hrow' : L'.rows a = some row') :
    ∃ row, L.rows a = some row ∧ row'.lastSeq = op.reached a row.lastSeq := by
  have hrec : op.records a = false := by
    cases h with
    | @accept b lease started row live =>
        refine decide_eq_false ?_
        intro hb
        rw [hb, hlive] at live
        cases live
    | _ => rfl
  have hlast := h.lastSeq a
  rw [hrow', hrec, if_neg Bool.false_ne_true] at hlast
  split at hlast
  · cases hlast
  · obtain ⟨row, hrow, hreach⟩ := Option.map_eq_some_iff.mp hlast.symm
    exact ⟨row, hrow, hreach.symm⟩

/-! ### Every step keeps the block -/

/-- The job an event belongs to is registered, and its attempt is on record. -/
theorem Owned.emitter (ho : Owned L) (hs : Sound L) (hrun : r ∈ L.runs) (hended : r ∉ L.ended)
    (hf : (L.jobs r).fenced = false) :
    L.live (L.jobs r).attempt = some r ∧ ∃ row, L.rows (L.jobs r).attempt = some row := by
  have hlive := ho.registered r ⟨hrun, hended⟩ hf
  obtain ⟨row, hrow, -⟩ := hs.row _ r hlive
  exact ⟨hlive, row, hrow⟩

/-- The number of an event is one more than that of the last. -/
theorem Contiguous.event_seq (hc : Contiguous L acked) (hs : Sound L) (ho : Owned L)
    {e : EventRow} {pause : Bool} (h : Step sha L (.event r e pause) L')
    (hq : Orderly L (.event r e pause)) :
    L.live e.attemptId = some r ∧ ∃ row, L.rows e.attemptId = some row ∧
      e.seq = row.lastSeq + 1 := by
  cases h with
  | event run unfenced id seq insert =>
      obtain ⟨hlive, row, hrow⟩ := ho.emitter hs run hq unfenced
      rw [id]
      exact ⟨hlive, row, hrow, by rw [seq, hc.seq _ r row hlive hrow]⟩

/-- No number is taken when it is needed. -/
theorem Contiguous.no_burn (hc : Contiguous L acked) (hs : Sound L) (ho : Owned L)
    (h : Step sha L (.burn r) L') (hq : Orderly L (.burn r)) : False := by
  cases h with
  | burn run unfenced taken =>
      obtain ⟨hlive, row, hrow⟩ := ho.emitter hs run hq unfenced
      obtain ⟨e, he⟩ := Option.isSome_iff_exists.mp taken
      obtain ⟨hmem, hkey⟩ := Table.find?_eq_some.mp he
      injection hkey with hid hseq
      have hin : e.seq ∈ (L.eventsOf (L.jobs r).attempt).map EventRow.seq :=
        List.mem_map_of_mem (List.mem_filter.mpr ⟨hmem, decide_eq_true hid⟩)
      obtain ⟨hle, hblock⟩ := hc.block _ row hrow
      rw [hblock] at hin
      have hbound := List.mem_range'_1.mp hin
      have hlast := hc.seq _ r row hlive hrow
      omega

theorem Contiguous.block_step (hc : Contiguous L acked) (hs : Sound L) (ho : Owned L)
    (h : Step sha L op L') (hq : Orderly L op) {row' : Row} (hrow' : L'.rows a = some row') :
    op.noteAck L acked a ≤ row'.lastSeq ∧ (L'.eventsOf a).map EventRow.seq =
      List.range' (op.noteAck L acked a + 1) (row'.lastSeq - op.noteAck L acked a) := by
  have hlast := h.lastSeq a
  rw [hrow', Option.map_some] at hlast
  by_cases hrec : op.records a = true
  · -- a new attempt starts with nothing stored
    cases h with
    | @accept b lease started row live =>
        obtain rfl := of_decide_eq_true hrec
        rw [if_pos hrec] at hlast
        have hzero : row'.lastSeq = 0 := Option.some.inj hlast
        have hnone : (L.accept b lease started).eventsOf b = [] := hc.bare b row
        simp [hzero, hnone, Op.noteAck]
    | _ => cases hrec
  · rw [if_neg hrec] at hlast
    split at hlast
    · cases hlast
    · rename_i hforgets
      obtain ⟨row, hrow, hreach⟩ := Option.map_eq_some_iff.mp hlast.symm
      obtain ⟨hle, hblock⟩ := hc.block a row hrow
      have hkept : (∀ b n u, op ≠ .ack b n u) → ∀ n, op.releases (a, n) = false := by
        intro hop n
        cases op with
        | ack b m u => exact absurd rfl (hop b m u)
        | _ => exact Bool.not_eq_true _ ▸ hforgets
      cases op with
      | ack b n u =>
          by_cases hb : b = a
          · subst hb
            have hev := h.eventsOf b
            simp only [Op.stored, Option.toList_none, List.filter_nil, List.append_nil] at hev
            have hrel : (L.eventsOf b).filter (fun e => !(Op.ack b n u).releases e.key) =
                (L.eventsOf b).filter ((fun i => !decide (i ≤ n)) ∘ EventRow.seq) := by
              refine List.filter_congr ?_
              intro e he
              have hid : e.attemptId = b := of_decide_eq_true (List.mem_filter.mp he).2
              simp [Op.releases, EventRow.key, hid]
            rw [hev, hrel, ← List.filter_map, hblock, range'_filter _ _ _ hle, ← hreach]
            simp only [Op.noteAck, Op.reached, Function.update_self, hrow, Option.map_some,
              Option.getD_some]
            exact ⟨by omega, trivial⟩
          · have hev := h.eventsOf_kept (a := a) (fun m => by simp [Op.releases, Ne.symm hb])
            simp only [Op.stored, Option.toList_none, List.filter_nil, List.append_nil] at hev
            rw [hev, hblock, ← hreach]
            simp only [Op.noteAck, Op.reached, Function.update_of_ne (Ne.symm hb)]
            exact ⟨hle, trivial⟩
      | accept b lease started =>
          have hb : a ≠ b := fun hc => hrec (decide_eq_true hc.symm)
          rw [h.eventsOf_kept (hkept fun _ _ _ hc => by cases hc), ← hreach]
          simp only [Op.noteAck, Function.update_of_ne hb, Op.reached, Op.stored,
            Option.toList_none, List.filter_nil, List.append_nil]
          exact ⟨hle, hblock⟩
      | event q e pause =>
          rw [h.eventsOf_kept (hkept fun _ _ _ hc => by cases hc), ← hreach]
          by_cases he : e.attemptId = a
          · subst he
            obtain ⟨-, row2, hrow2, hseq⟩ := hc.event_seq hs ho h hq
            obtain rfl : row = row2 := Option.some.inj (hrow.symm.trans hrow2)
            have hmax : max row.lastSeq e.seq = row.lastSeq + 1 := by omega
            have hlen : row.lastSeq + 1 - acked e.attemptId =
                row.lastSeq - acked e.attemptId + 1 := by omega
            have hend : acked e.attemptId + 1 + (row.lastSeq - acked e.attemptId) = e.seq := by omega
            simp only [Op.reached, if_true, Op.noteAck, Op.stored, hmax, hlen]
            rw [List.range'_1_concat, hend, ← hblock]
            refine ⟨by omega, ?_⟩
            simp
          · simp only [Op.reached, if_neg he, Op.noteAck, Op.stored]
            refine ⟨hle, ?_⟩
            simpa [he] using hblock
      | _ =>
          rw [h.eventsOf_kept (hkept fun _ _ _ hc => by cases hc), ← hreach]
          simp only [Op.reached, Op.noteAck, Op.stored, Option.toList_none, List.filter_nil,
            List.append_nil]
          exact ⟨hle, hblock⟩

theorem Contiguous.bare_step (hc : Contiguous L acked) (hs : Sound L) (ho : Owned L)
    (h : Step sha L op L') (hq : Orderly L op) (hrow' : L'.rows a = none) :
    L'.eventsOf a = [] := by
  by_cases hforgets : op.forgets a = true
  · exact h.eventsOf_forgets hforgets
  · have hrec := h.recorded a
    have hnone : L.rows a = none := by
      rw [hrow', Option.isSome_none] at hrec
      cases hrow : L.rows a with
      | none => rfl
      | some row => simp [hrow, Bool.not_eq_true _ ▸ hforgets] at hrec
    rw [h.eventsOf a, hc.bare a hnone, List.filter_nil, List.nil_append]
    cases op with
    | event q e pause =>
        have hne : e.attemptId ≠ a := by
          intro he
          obtain ⟨-, row, hrow, -⟩ := hc.event_seq hs ho h hq
          rw [he, hnone] at hrow
          cases hrow
        simp [Op.stored, hne]
    | _ => rfl

theorem Contiguous.seq_step (hc : Contiguous L acked) (hs : Sound L) (ho : Owned L)
    (h : Step sha L op L') (hq : Orderly L op) {row' : Row} (hlive' : L'.live a = some r)
    (hrow' : L'.rows a = some row') : (L'.jobs r).seq = row'.lastSeq := by
  rcases h.live a with (heq | hnone) | ⟨lease, started, hop, hnew⟩
  · have hlive : L.live a = some r := heq.symm.trans hlive'
    obtain ⟨row, hrow, hreach⟩ := h.row_of_live hlive hrow'
    have hseq := hc.seq a r row hlive hrow
    rw [h.seq (hs.live_lt a r hlive), hreach]
    cases op with
    | event q e pause =>
        obtain ⟨hliveq, row2, hrow2, hnext⟩ := hc.event_seq hs ho h hq
        by_cases hid : e.attemptId = a
        · subst hid
          obtain rfl : q = r := Option.some.inj (hliveq.symm.trans hlive)
          obtain rfl : row = row2 := Option.some.inj (hrow.symm.trans hrow2)
          simp only [Op.reached, Op.counted, if_true]
          omega
        · have hne : q ≠ r := by
            rintro rfl
            exact hid ((hs.attempt _ q hliveq).symm.trans (hs.attempt a q hlive))
          simp only [Op.reached, Op.counted, if_neg hid, if_neg hne]
          exact hseq
    | burn q => exact (hc.no_burn hs ho h hq).elim
    | _ => exact hseq
  · exact absurd (hnone.symm.trans hlive') (by simp)
  · subst hop
    obtain rfl : L.next = r := Option.some.inj (hnew.symm.trans hlive')
    have hlast := h.lastSeq a
    have hrec : Op.records a (.accept a lease started) = true := decide_eq_true rfl
    rw [hrow', if_pos hrec] at hlast
    have hzero : row'.lastSeq = 0 := Option.some.inj hlast
    rw [h.jobs, hzero]
    simp [Op.change, changed]

/-- **Every step keeps stored what is sent and not acknowledged.** -/
theorem Contiguous.step (hc : Contiguous L acked) (hs : Sound L) (ho : Owned L)
    (h : Step sha L op L') (hq : Orderly L op) : Contiguous L' (op.noteAck L acked) :=
  ⟨fun _ _ hrow' => hc.block_step hs ho h hq hrow', fun _ hrow' => hc.bare_step hs ho h hq hrow',
    fun _ _ _ hlive' hrow' => hc.seq_step hs ho h hq hlive' hrow'⟩

end HuginAgent.Ledger
