/-
What the stored payloads hold.

The text of an event or a result is parsed only to be sent again, so it matters
that the object that comes back is the message as a receiver decodes it, that
setting the lease and the envelope changes these three properties and no other,
and, for a result, that digest and lease in its row are those of the payload, when
it is saved and again when it is re-stamped.
-/
import HuginAgent.Js.RoundTrip
import HuginAgent.Jobs.Manager
import HuginAgent.Ledger.Basic

namespace HuginAgent

/-! ### The builders write distinct properties -/

theorem attemptMsg_keys (type : String) (ctx : AttemptCtx) (rest : JsObject) (e : Envelope) :
    (attemptMsg type ctx rest e).keys =
      [js "id", js "ts", js "type", js "job_id", js "attempt_id", js "lease_id"] ++ rest.keys :=
  rfl

/-- A message is well formed when its own properties are new ones and well formed. -/
theorem attemptMsg_wellFormed {type : String} {ctx : AttemptCtx} {rest : JsObject} {e : Envelope}
    (own : List JsString) (hown : rest.keys = own)
    (hkeys : ([js "id", js "ts", js "type", js "job_id", js "attempt_id", js "lease_id"]
      ++ own).Nodup)
    (hrest : ∀ p ∈ rest, p.2.wellFormed = true) :
    (JsValue.obj (attemptMsg type ctx rest e)).wellFormed = true := by
  rw [JsValue.wellFormed, JsValue.wellFormedFields_iff, attemptMsg_keys, hown]
  refine ⟨hkeys, ?_⟩
  intro p hp
  simp only [attemptMsg, Envelope.fields, AttemptCtx.fields, List.cons_append, List.nil_append,
    List.mem_cons] at hp
  rcases hp with rfl | rfl | rfl | rfl | rfl | rfl | hp
  · rfl
  · rfl
  · rfl
  · rfl
  · rfl
  · rfl
  · exact hrest p hp

theorem streamEvent_wellFormed (ctx : AttemptCtx) (seq : Nat) (eventId : JsString)
    (ev : EngineEvent) (e : Envelope) :
    (JsValue.obj (streamEvent ctx seq eventId ev e)).wellFormed = true := by
  refine attemptMsg_wellFormed [js "seq", js "event_id", js "event"] rfl (by decide) ?_
  intro p hp
  simp only [List.mem_cons, List.not_mem_nil, or_false] at hp
  rcases hp with rfl | rfl | rfl
  · rfl
  · rfl
  · exact ev.wellFormed

theorem jobResultMsg_wellFormed (ctx : AttemptCtx) (f : JobResultFields) (e : Envelope) :
    (JsValue.obj (jobResultMsg ctx f e)).wellFormed = true := by
  refine attemptMsg_wellFormed [js "final_status", js "exit_code", js "signal", js "error_kind",
    js "duration_ms", js "stats", js "head_sha"] rfl (by decide) ?_
  intro p hp
  simp only [List.mem_cons, List.not_mem_nil, or_false] at hp
  rcases hp with rfl | rfl | rfl | rfl | rfl | rfl | rfl
  · rfl
  · cases f.exitCode <;> rfl
  · rfl
  · cases f.errorKind <;> rfl
  · rfl
  · rfl
  · rfl

/-! ### Re-stamping -/

theorem wellFormed_set {o : JsObject} (h : (JsValue.obj o).wellFormed = true) (key : JsString)
    {v : JsValue} (hv : v.wellFormed = true) : (JsValue.obj (o.set key v)).wellFormed = true := by
  rw [JsValue.wellFormed, JsValue.wellFormedFields_iff] at h ⊢
  refine ⟨JsObject.nodup_keys_set h.1 key v, ?_⟩
  intro p hp
  rcases JsObject.mem_set hp with rfl | hmem
  · exact hv
  · exact h.2 p hmem

open JobManager

theorem restamp_wellFormed {o : JsObject} (h : (JsValue.obj o).wellFormed = true)
    (leaseId : JsString) (e : Envelope) :
    (JsValue.obj (restamp (some leaseId) o e)).wellFormed = true :=
  wellFormed_set (wellFormed_set (wellFormed_set h _ rfl) _ rfl) _ rfl

theorem restamp_get_lease (o : JsObject) (leaseId : JsString) (e : Envelope) :
    (restamp (some leaseId) o e).get (js "lease_id") = .str leaseId := by
  rw [restamp, JsObject.get_set_of_ne _ _ (by decide), JsObject.get_set_of_ne _ _ (by decide),
    JsObject.get_set_self]

/-- Every property but the three that are set stays. -/
theorem restamp_get {o : JsObject} {leaseId key : JsString} {e : Envelope}
    (hlease : key ≠ js "lease_id") (hid : key ≠ js "id") (hts : key ≠ js "ts") :
    (restamp (some leaseId) o e).get key = o.get key := by
  rw [restamp, JsObject.get_set_of_ne _ _ hts, JsObject.get_set_of_ne _ _ hid,
    JsObject.get_set_of_ne _ _ hlease]

/-- A re-stamped object can be digested again when its new lease can. -/
theorem restamp_digest {sha : JsString → JsString} {o : JsObject} {leaseId : JsString}
    {e : Envelope} (h : ∃ d, resultDigest sha o = .ok d) (hlease : hasLoneSurrogate leaseId = false) :
    ∃ d, resultDigest sha (restamp (some leaseId) o e) = .ok d := by
  rw [restamp, resultDigest_set_envelope (Or.inr rfl), resultDigest_set_envelope (Or.inl rfl)]
  exact resultDigest_set_ok h hlease

/-- And it cannot be otherwise. -/
theorem restamp_digest_iff {sha : JsString → JsString} {o : JsObject} {leaseId : JsString}
    {e : Envelope} (h : HasDigest o) :
    (∃ d, resultDigest sha (restamp (some leaseId) o e) = .ok d) ↔
      hasLoneSurrogate leaseId = false := by
  refine ⟨?_, restamp_digest ((hasDigest_iff sha).mpr h)⟩
  rw [restamp, resultDigest_set_envelope (Or.inr rfl), resultDigest_set_envelope (Or.inl rfl),
    resultDigest_ok_iff]
  have hid : js "lease_id" ≠ js "id" := by decide
  have hts : js "lease_id" ≠ js "ts" := by decide
  intro hall
  exact (jcs_str_ok_iff leaseId).mp
    (hall _ (JsObject.mem_set_self o (js "lease_id") _) hid hts rfl)

/-! ### Results -/

theorem parse_wellFormed {o : JsObject} (h : (JsValue.obj o).wellFormed = true) :
    parseObject (stringifyObject o) = some o.onWire ∧
      (JsValue.obj o.onWire).wellFormed = true :=
  ⟨parseObject_stringifyObject o h, JsValue.onWire_wellFormed _ h⟩

theorem keys_nodup {o : JsObject} (h : (JsValue.obj o).wellFormed = true) : o.keys.Nodup := by
  rw [JsValue.wellFormed, JsValue.wellFormedFields_iff] at h
  exact h.1

/-- A row whose payload is the text of a `job.result` with its digest. -/
theorem acknowledgeable_of_text {sha : JsString → JsString} {res : StoredResult} {o : JsObject}
    (hpayload : res.payload = stringifyObject o) (hwf : (JsValue.obj o).wellFormed = true)
    (htype : o.get (js "type") = .lit "job.result")
    (hid : o.get (js "attempt_id") = .str res.attemptId)
    (hlease : o.get (js "lease_id") = .str res.leaseId)
    (hdigest : resultDigest sha o = .ok res.resultDigest)
    (hsize : res.resultSize = byteLength res.payload) : Acknowledgeable sha res := by
  obtain ⟨hparse, hwire⟩ := parse_wellFormed hwf
  have hkeys := keys_nodup hwf
  refine ⟨⟨o.onWire, by rw [hpayload, hparse], hwire, ?_, ?_, ?_, resultDigest_onWire hdigest⟩,
    hsize⟩
  · rw [JsObject.get_onWire o hkeys, htype]
    rfl
  · rw [JsObject.get_onWire o hkeys, hid]
    rfl
  · rw [JsObject.get_onWire o hkeys, hlease]
    rfl

/-- **The row `onDone` saves can be acknowledged.** -/
theorem storedResultOf_acknowledgeable {sha : JsString → JsString} {state : JobState}
    {outcome : EngineOutcome} {durationMs : Int} {e : Envelope} {digest : JsString}
    (h : resultDigest sha (resultOf state outcome durationMs e) = .ok digest) :
    Acknowledgeable sha
      (storedResultOf state outcome digest (resultOf state outcome durationMs e)) :=
  acknowledgeable_of_text rfl (jobResultMsg_wellFormed _ _ _) rfl rfl rfl h rfl

/-- **The row a resend leaves behind can be acknowledged.** -/
theorem restamped_acknowledgeable {sha : JsString → JsString} {old : StoredResult}
    {o : JsObject} {leaseId digest : JsString} {e : Envelope}
    (hold : Acknowledgeable sha old) (hparse : parseObject old.payload = some o)
    (h : resultDigest sha (restamp (some leaseId) o e) = .ok digest) :
    Acknowledgeable sha
      { old with
        leaseId
        resultDigest := digest
        payload := stringifyObject (restamp (some leaseId) o e)
        resultSize := byteLength (stringifyObject (restamp (some leaseId) o e)) } := by
  obtain ⟨o', hparse', hwf, htype, hid, -, -⟩ := hold.parses
  obtain rfl : o = o' := Option.some.inj (hparse.symm.trans hparse')
  refine acknowledgeable_of_text rfl (restamp_wellFormed hwf _ _) ?_ ?_ ?_ h rfl
  · rw [restamp_get (by decide) (by decide) (by decide)]
    exact htype
  · rw [restamp_get (by decide) (by decide) (by decide)]
    exact hid
  · exact restamp_get_lease _ _ _

end HuginAgent
