/-
The canonical result digest, `protocol/v1/digest.ts`.

    result_digest := base64url( SHA-256( JCS(job.result minus id, ts) ) )

`jcsCanonicalize` follows RFC 8785 and throws where a value has no canonical form.
Two facts about it carry the result store.  A digest taken of a message equals the
one taken of its stored payload (`resultDigest_onWire`), because what JSON text
drops is exactly what canonicalization skips; and whether an object can be
canonicalized is decided property by property (`jcs_obj_ok_iff`), so a re-stamped
result can be digested again as soon as its new lease can.

The hash itself belongs to `node:crypto` and is a parameter.
-/
import HuginAgent.Js.Json
import Mathlib.Data.List.Sort

namespace HuginAgent

/-- Why `jcsCanonicalize` throws. -/
inductive JcsError
  | nonFiniteNumber
  | loneSurrogate
  | unsupportedType
deriving DecidableEq

/-- Properties in the order of `Object.keys(obj).sort()`: by UTF-16 code units. -/
def sortKeys {α : Type} (fields : List (JsString × α)) : List (JsString × α) :=
  fields.insertionSort fun p q => p.1 ≤ q.1

/-- The members of an object in order, unless one of them throws. -/
def memberTexts : List (JsString × Except JcsError JsString) → Except JcsError (List JsString)
  | [] => .ok []
  | p :: rest => do
      let text ← p.2
      let texts ← memberTexts rest
      return (quote p.1 ++ unit ':' :: text) :: texts

mutual

/-- RFC 8785 JSON canonicalization. -/
def jcsCanonicalize : JsValue → Except JcsError JsString
  | .undefined => .error .unsupportedType
  | .null => .ok (js "null")
  | .bool b => .ok (if b then js "true" else js "false")
  | .num n => if n.isFinite then .ok n.text else .error .nonFiniteNumber
  | .str s => if hasLoneSurrogate s then .error .loneSurrogate else .ok (quote s)
  | .arr items => do
      let texts ← jcsItems items
      return unit '[' :: (joinComma texts ++ [unit ']'])
  | .obj fields => do
      let texts ← memberTexts (sortKeys (jcsFields fields))
      return unit '\x7b' :: (joinComma texts ++ [unit '\x7d'])

def jcsItems : List JsValue → Except JcsError (List JsString)
  | [] => .ok []
  | v :: rest => do
      let text ← if v.isUndefined then .ok (js "null") else jcsCanonicalize v
      let texts ← jcsItems rest
      return text :: texts

def jcsFields : JsObject → List (JsString × Except JcsError JsString)
  | [] => []
  | p :: rest =>
      if p.2.isUndefined then jcsFields rest else (p.1, jcsCanonicalize p.2) :: jcsFields rest

end

/-- Digest of a `job.result`: the per-send envelope fields do not count. -/
def resultDigest (sha256Base64Url : JsString → JsString) (jobResult : JsObject) :
    Except JcsError JsString :=
  (jcsCanonicalize (.obj (jobResult.without [js "id", js "ts"]))).map sha256Base64Url

/-! ### When canonicalization succeeds -/

theorem memberTexts_ok_iff (l : List (JsString × Except JcsError JsString)) :
    (∃ ts, memberTexts l = .ok ts) ↔ ∀ p ∈ l, ∃ t, p.2 = .ok t := by
  induction l with
  | nil => exact ⟨fun _ p hp => absurd hp (by simp), fun _ => ⟨[], rfl⟩⟩
  | cons p rest ih =>
      rw [List.forall_mem_cons, ← ih]
      cases hp : p.2 with
      | error e =>
          refine ⟨fun ⟨ts, h⟩ => ?_, fun ⟨⟨t, ht⟩, _⟩ => absurd ht (by simp)⟩
          rw [memberTexts, hp] at h
          exact absurd h (by simp [bind, Except.bind])
      | ok t =>
          rw [memberTexts, hp]
          cases hrest : memberTexts rest with
          | error e =>
              refine ⟨fun ⟨ts, h⟩ => ?_, fun ⟨_, ts, h⟩ => absurd h (by simp)⟩
              exact absurd h (by simp [bind, Except.bind])
          | ok ts => exact ⟨fun _ => ⟨⟨t, rfl⟩, ts, rfl⟩, fun _ => ⟨_, rfl⟩⟩

theorem mem_sortKeys {α : Type} {l : List (JsString × α)} {p : JsString × α} :
    p ∈ sortKeys l ↔ p ∈ l := List.mem_insertionSort _

theorem mem_jcsFields {o : JsObject} {p : JsString × Except JcsError JsString} :
    p ∈ jcsFields o ↔ ∃ q ∈ o, q.2.isUndefined = false ∧ p = (q.1, jcsCanonicalize q.2) := by
  induction o with
  | nil => simp [jcsFields]
  | cons q rest ih =>
      rw [jcsFields]
      by_cases hq : q.2.isUndefined = true
      · simp [hq, ih]
      · simp [hq, ih]

/-- An object is canonicalized when every property that is kept can be. -/
theorem jcs_obj_ok_iff (o : JsObject) :
    (∃ t, jcsCanonicalize (.obj o) = .ok t) ↔
      ∀ p ∈ o, p.2.isUndefined = false → ∃ t, jcsCanonicalize p.2 = .ok t := by
  have hobj : (∃ t, jcsCanonicalize (.obj o) = .ok t) ↔
      ∃ ts, memberTexts (sortKeys (jcsFields o)) = .ok ts := by
    rw [jcsCanonicalize]
    cases memberTexts (sortKeys (jcsFields o)) with
    | error e => exact ⟨fun ⟨t, h⟩ => absurd h (by simp [bind, Except.bind]),
        fun ⟨t, h⟩ => absurd h (by simp)⟩
    | ok ts => exact ⟨fun _ => ⟨ts, rfl⟩, fun _ => ⟨_, rfl⟩⟩
  rw [hobj, memberTexts_ok_iff]
  constructor
  · intro h p hp hu
    exact h _ (mem_sortKeys.mpr (mem_jcsFields.mpr ⟨p, hp, hu, rfl⟩))
  · intro h p hp
    obtain ⟨q, hq, hu, rfl⟩ := mem_jcsFields.mp (mem_sortKeys.mp hp)
    exact h q hq hu

theorem jcs_str_ok_iff (s : JsString) :
    (∃ t, jcsCanonicalize (.str s) = .ok t) ↔ hasLoneSurrogate s = false := by
  rw [jcsCanonicalize]
  split
  · rename_i h
    simp [h]
  · rename_i h
    exact ⟨fun _ => by simpa using h, fun _ => ⟨_, rfl⟩⟩

/-! ### Text and canonical form agree -/

mutual

theorem jcs_onWire : ∀ (v : JsValue) {t : JsString}, jcsCanonicalize v = .ok t →
    jcsCanonicalize v.onWire = .ok t
  | .undefined, _, h => h
  | .null, _, h => h
  | .bool _, _, h => h
  | .num n, t, h => by
      rw [jcsCanonicalize] at h
      split at h
      · rename_i hfin
        rw [JsValue.onWire, if_pos hfin, jcsCanonicalize, if_pos hfin]
        exact h
      · exact absurd h (by simp)
  | .str _, _, h => h
  | .arr items, t, h => by
      rw [jcsCanonicalize] at h
      cases hitems : jcsItems items with
      | error e =>
          rw [hitems] at h
          exact absurd h (by simp [bind, Except.bind])
      | ok ts =>
          rw [hitems] at h
          rw [JsValue.onWire, jcsCanonicalize, jcsItems_onWire items hitems]
          exact h
  | .obj fields, t, h => by
      have hall : ∀ p ∈ jcsFields fields, ∃ u, p.2 = .ok u := by
        intro p hp
        obtain ⟨q, hq, hu, rfl⟩ := mem_jcsFields.mp hp
        exact (jcs_obj_ok_iff fields).mp ⟨t, h⟩ q hq hu
      rw [jcsCanonicalize] at h
      rw [JsValue.onWire, jcsCanonicalize, jcsFields_onWire fields hall]
      exact h

theorem jcsItems_onWire : ∀ (items : List JsValue) {ts : List JsString},
    jcsItems items = .ok ts → jcsItems (JsValue.itemsOnWire items) = .ok ts
  | [], _, h => h
  | v :: rest, ts, h => by
      rw [jcsItems] at h
      rw [JsValue.itemsOnWire, jcsItems]
      by_cases hu : v.isUndefined = true
      · rw [if_pos hu] at h ⊢
        cases hrest : jcsItems rest with
        | error e =>
            rw [hrest] at h
            exact absurd h (by simp [bind, Except.bind])
        | ok us =>
            rw [hrest] at h
            rw [jcsItems_onWire rest hrest]
            exact h
      · have hw := JsValue.onWire_isUndefined v (by simpa using hu)
        rw [if_neg hu] at h ⊢
        simp only [hw, Bool.false_eq_true, if_false]
        cases hv : jcsCanonicalize v with
        | error e =>
            rw [hv] at h
            exact absurd h (by simp [bind, Except.bind])
        | ok t =>
            rw [hv] at h
            rw [jcs_onWire v hv]
            cases hrest : jcsItems rest with
            | error e =>
                rw [hrest] at h
                exact absurd h (by simp [bind, Except.bind])
            | ok us =>
                rw [hrest] at h
                rw [jcsItems_onWire rest hrest]
                exact h

theorem jcsFields_onWire : ∀ (fields : JsObject), (∀ p ∈ jcsFields fields, ∃ t, p.2 = .ok t) →
    jcsFields (JsValue.fieldsOnWire fields) = jcsFields fields
  | [], _ => rfl
  | (key, v) :: rest, h => by
      by_cases hu : v.isUndefined = true
      · have hwire : JsValue.fieldsOnWire ((key, v) :: rest) = JsValue.fieldsOnWire rest := by
          simp [JsValue.fieldsOnWire, hu]
        have hfields : jcsFields ((key, v) :: rest) = jcsFields rest := by
          simp [jcsFields, hu]
        rw [hfields] at h
        rw [hwire, hfields]
        exact jcsFields_onWire rest h
      · have hw := JsValue.onWire_isUndefined v (by simpa using hu)
        have hfields : jcsFields ((key, v) :: rest)
            = (key, jcsCanonicalize v) :: jcsFields rest := by
          simp [jcsFields, hu]
        have hwire : JsValue.fieldsOnWire ((key, v) :: rest)
            = (key, v.onWire) :: JsValue.fieldsOnWire rest := by
          simp [JsValue.fieldsOnWire, hu]
        rw [hfields, List.forall_mem_cons] at h
        obtain ⟨⟨t, ht⟩, hrest⟩ := h
        have ht : jcsCanonicalize v = .ok t := ht
        rw [hwire, hfields, jcsFields]
        simp only [hw, Bool.false_eq_true, if_false]
        rw [jcs_onWire v ht, jcsFields_onWire rest hrest, ht]

end

theorem without_onWire (o : JsObject) (ks : List JsString) :
    (o.without ks).onWire = o.onWire.without ks := by
  induction o with
  | nil => rfl
  | cons p rest ih =>
      simp only [JsObject.without, JsObject.onWire, List.filter_cons, JsValue.fieldsOnWire] at ih ⊢
      by_cases hk : (!ks.contains p.1) = true
      · by_cases hu : p.2.isUndefined = true
        · rw [if_pos hk, if_pos hu, ← ih, JsValue.fieldsOnWire, if_pos hu]
        · rw [if_pos hk, if_neg hu, JsValue.fieldsOnWire, if_neg hu, List.filter_cons,
            if_pos hk, ih]
      · by_cases hu : p.2.isUndefined = true
        · rw [if_neg hk, if_pos hu, ih]
        · rw [if_neg hk, if_neg hu, List.filter_cons, if_neg hk, ih]

/-- **The stored payload of a result has the digest of the result.** -/
theorem resultDigest_onWire {sha : JsString → JsString} {o : JsObject} {d : JsString}
    (h : resultDigest sha o = .ok d) : resultDigest sha o.onWire = .ok d := by
  unfold resultDigest at h ⊢
  cases hjcs : jcsCanonicalize (.obj (o.without [js "id", js "ts"])) with
  | error e =>
      rw [hjcs] at h
      exact absurd h (by simp [Except.map])
  | ok t =>
      have hwire := jcs_onWire _ hjcs
      rw [JsValue.onWire] at hwire
      rw [← without_onWire, hwire]
      rwa [hjcs] at h

/-- What is digested of the message has a canonical form. -/
def HasDigest (msg : JsObject) : Prop :=
  ∃ text, jcsCanonicalize (.obj (msg.without [js "id", js "ts"])) = .ok text

theorem hasDigest_iff (sha : JsString → JsString) {msg : JsObject} :
    (∃ d, resultDigest sha msg = .ok d) ↔ HasDigest msg := by
  unfold resultDigest HasDigest
  cases jcsCanonicalize (.obj (msg.without [js "id", js "ts"])) with
  | error e => simp [Except.map]
  | ok t => simp [Except.map]

/-- A result can be digested when every property but the envelope can be canonicalized. -/
theorem resultDigest_ok_iff (sha : JsString → JsString) (o : JsObject) :
    (∃ d, resultDigest sha o = .ok d) ↔
      ∀ p ∈ o, p.1 ≠ js "id" → p.1 ≠ js "ts" → p.2.isUndefined = false →
        ∃ t, jcsCanonicalize p.2 = .ok t := by
  rw [hasDigest_iff, HasDigest, jcs_obj_ok_iff]
  constructor
  · intro h p hp hid hts hu
    exact h p (by simp [JsObject.without, hp, hid, hts]) hu
  · intro h p hp hu
    simp only [JsObject.without, List.mem_filter, Bool.not_eq_true', List.contains_eq_mem,
      decide_eq_false_iff_not, List.mem_cons, List.not_mem_nil, or_false, not_or] at hp
    exact h p hp.1 hp.2.1 hp.2.2 hu

/-- Writing a string without lone surrogates into a result keeps it digestible. -/
theorem resultDigest_set_ok {sha : JsString → JsString} {o : JsObject} {key s : JsString}
    (h : ∃ d, resultDigest sha o = .ok d) (hs : hasLoneSurrogate s = false) :
    ∃ d, resultDigest sha (o.set key (.str s)) = .ok d := by
  rw [resultDigest_ok_iff] at h ⊢
  intro p hp hid hts hu
  rcases JsObject.mem_set hp with rfl | hmem
  · exact (jcs_str_ok_iff s).mpr hs
  · exact h p hmem hid hts hu

/-- A text that is digested has no lone surrogate. -/
theorem whole_of_digest {sha : JsString → JsString} {o : JsObject} {digest key s : JsString}
    (h : resultDigest sha o = .ok digest) (hget : o.get key = .str s) (hid : key ≠ js "id")
    (hts : key ≠ js "ts") : hasLoneSurrogate s = false := by
  have hmem : (key, o.get key) ∈ o := JsObject.mem_of_get (by rw [hget]; rfl)
  rw [hget] at hmem
  exact (jcs_str_ok_iff s).mp ((resultDigest_ok_iff sha o).mp ⟨digest, h⟩ _ hmem hid hts rfl)

/-- The envelope does not enter the digest. -/
theorem resultDigest_set_envelope {sha : JsString → JsString} {o : JsObject} {key : JsString}
    {v : JsValue} (hkey : key = js "id" ∨ key = js "ts") :
    resultDigest sha (o.set key v) = resultDigest sha o := by
  have hdrop : (o.set key v).without [js "id", js "ts"] = o.without [js "id", js "ts"] := by
    have hkeep : ¬ (!([js "id", js "ts"] : List JsString).contains key) = true := by
      rcases hkey with rfl | rfl <;> decide
    induction o with
    | nil =>
        rw [JsObject.set, JsObject.without, List.filter_cons, if_neg hkeep]
        rfl
    | cons p rest ih =>
        by_cases hp : p.1 = key
        · rw [JsObject.set, if_pos hp, JsObject.without, JsObject.without, List.filter_cons,
            List.filter_cons, if_neg hkeep, if_neg (hp ▸ hkeep)]
        · simp only [JsObject.set, if_neg hp, JsObject.without, List.filter_cons] at ih ⊢
          rw [ih]
  rw [resultDigest, resultDigest, hdrop]

end HuginAgent
