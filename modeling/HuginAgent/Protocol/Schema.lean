/-
The schema combinators, as far as `protocol/v1/messages.ts` uses them.

A schema says which values it lets through.  What it would fill in for a property that is
missing plays no part in that, so a property with a default is an optional one.  The test
of a timestamp belongs to the schema library and is a parameter where a message has one.

A message is checked against its schema property by property: `strictObject_iff` is the
one fact about objects that the rest of the development uses.
-/
import HuginAgent.Js.Value

namespace HuginAgent

/-- `Number.MAX_SAFE_INTEGER`. -/
def maxSafeInteger : Nat := 9007199254740991

abbrev Schema := JsValue → Bool

namespace Schema

/-- A string with a property. -/
def string (p : JsString → Bool) : Schema
  | .str s => p s
  | _ => false

def literal (s : String) : Schema := string fun t => t = js s

def oneOf (ss : List String) : Schema := string fun t => ss.any fun s => t = js s

def boolean : Schema
  | .bool _ => true
  | _ => false

/-- `z.number().int().nonnegative().max(Number.MAX_SAFE_INTEGER)`. -/
def safeInt : Schema
  | .num (.finite d) =>
      !d.neg && 0 ≤ d.exponent && d.digits * 10 ^ d.exponent.toNat ≤ maxSafeInteger
  | _ => false

/-- `z.number().int()`. -/
def int : Schema
  | .num (.finite d) => d.toInt?.any fun i => i.natAbs ≤ maxSafeInteger
  | _ => false

/-- `z.number().int().positive().max(Number.MAX_SAFE_INTEGER)`. -/
def posInt : Schema
  | .num n => safeInt (.num n) && n ≠ .ofInt 0
  | _ => false

/-- `.nullable()`. -/
def nullable (schema : Schema) : Schema
  | .null => true
  | v => schema v

/-- `z.array(item).max(max)`. -/
def array (item : Schema) (max : Nat) : Schema
  | .arr items => items.length ≤ max && items.all item
  | _ => false

/-- `.optional()`, and `.default(…)` too: the property may be missing. -/
def optional (schema : Schema) : Schema := fun v => v.isUndefined || schema v

/-- The one key that the library never looks at. -/
def protoKey : JsString := js "__proto__"

/-- `z.strictObject(fields)`: no property beside those of the schema.  The loop over the properties
of the input leaves out one that is called `__proto__`. -/
def strictObject (fields : List (JsString × Schema)) : Schema
  | .obj o =>
      (JsObject.keys o).all (fun key => key = protoKey || fields.any fun f => f.1 = key) &&
        fields.all fun f => f.2 (JsObject.get o f.1)
  | _ => false

end Schema

/-! ### Scalars, `protocol/v1/messages.ts` -/

/-- `Id`. -/
def isId (s : JsString) : Bool := 1 ≤ s.length && s.length ≤ 256

/-- `Path`. -/
def isPath (s : JsString) : Bool := 1 ≤ s.length && s.length ≤ 4096

/-- `ARRAY_MAX`. -/
def arrayMax : Nat := 256

/-- `[A-Za-z0-9]`. -/
def isAlnum (u : UInt16) : Bool :=
  isDigit u || (65 ≤ u && u ≤ 90) || (97 ≤ u && u ≤ 122)

/-- `AuthId`, `/^[A-Za-z0-9._-]{1,128}$/`. -/
def isAuthId (s : JsString) : Bool :=
  1 ≤ s.length && s.length ≤ 128 &&
    s.all fun u => isAlnum u || u = unit '.' || u = unit '_' || u = unit '-'

/-- `Base64Url.length(n)`. -/
def isBase64Url (n : Nat) (s : JsString) : Bool :=
  s.length = n && s.all fun u => isAlnum u || u = unit '_' || u = unit '-'

/-- `Sha256Digest`. -/
def isSha256Digest : JsString → Bool := isBase64Url 43

/-- `Ed25519Sig`. -/
def isEd25519Sig : JsString → Bool := isBase64Url 86

/-- `\d+` and what comes after it. -/
def afterDigits (s : JsString) : Option JsString :=
  match s.span isDigit with
  | ([], _) => none
  | (_, rest) => some rest

/-- `\.` and what comes after it. -/
def afterDot : JsString → Option JsString
  | u :: rest => if u = unit '.' then some rest else none
  | [] => none

/-- `(?:-[0-9A-Za-z.-]+)?$`. -/
def isPrerelease : JsString → Bool
  | [] => true
  | u :: rest =>
      u = unit '-' && rest ≠ [] && rest.all fun v => isAlnum v || v = unit '.' || v = unit '-'

/-- `SemVer`, `/^\d+\.\d+\.\d+(?:-[0-9A-Za-z.-]+)?$/` of at most 64 units. -/
def isSemVer (s : JsString) : Bool :=
  s.length ≤ 64 &&
    (((((afterDigits s).bind afterDot).bind afterDigits).bind afterDot).bind afterDigits).any
      isPrerelease

/-! ### `Hello` -/

def engineStatusSchema : Schema :=
  .strictObject
    [(js "installed", .boolean),
      (js "version", .optional (.string isId)),
      (js "logged_in", .optional .boolean)]

def capabilitiesSchema : Schema :=
  .strictObject
    [(js "engines", .strictObject
        [(js "claude", engineStatusSchema), (js "codex", engineStatusSchema)]),
      (js "project_roots", .array (.string isPath) arrayMax)]

def activeJobSchema : Schema :=
  .strictObject
    [(js "job_id", .string isId),
      (js "attempt_id", .string isId),
      (js "lease_id", .string isId),
      (js "status", .oneOf ["accepted", "starting", "running", "cancelling"]),
      (js "last_emitted_seq", .safeInt)]

def pendingResultSchema : Schema :=
  .strictObject
    [(js "job_id", .string isId),
      (js "attempt_id", .string isId),
      (js "lease_id", .string isId),
      (js "final_status", .oneOf ["success", "error", "cancelled", "timeout"]),
      (js "result_digest", .string isSha256Digest),
      (js "result_size", .safeInt),
      (js "last_emitted_seq", .safeInt)]

/-- `isIso` is `z.string().datetime({ offset: true })`. -/
def helloSchema (isIso : JsString → Bool) : Schema :=
  .strictObject
    [(js "id", .string isId),
      (js "ts", .string isIso),
      (js "type", .literal "hello"),
      (js "protocol_version", .string isSemVer),
      (js "agent_id", .string isAuthId),
      (js "agent_version", .string isSemVer),
      (js "auth", .strictObject
        [(js "challenge_id", .string isAuthId),
          (js "key_id", .string isAuthId),
          (js "signature", .string isEd25519Sig),
          (js "alg", .literal "ed25519")]),
      (js "os", .strictObject
        [(js "platform", .oneOf ["darwin", "linux", "win32"]),
          (js "arch", .string isId),
          (js "release", .optional (.string isId))]),
      (js "capabilities", capabilitiesSchema),
      (js "active_jobs", .optional (.array activeJobSchema arrayMax)),
      (js "pending_results", .optional (.array pendingResultSchema arrayMax))]

/-! ### What they let through -/

namespace Schema

@[simp] theorem string_str (p : JsString → Bool) (s : JsString) : string p (.str s) = p s := rfl

theorem string_iff {p : JsString → Bool} {v : JsValue} :
    string p v = true ↔ ∃ s, v = .str s ∧ p s = true := by
  cases v with
  | str s =>
      refine ⟨fun h => ⟨s, rfl, h⟩, ?_⟩
      rintro ⟨t, ht, h⟩
      obtain rfl := JsValue.str.inj ht
      exact h
  | _ =>
      refine iff_of_false Bool.false_ne_true ?_
      rintro ⟨t, ht, -⟩
      cases ht

@[simp] theorem boolean_bool (b : Bool) : boolean (.bool b) = true := rfl

@[simp] theorem literal_lit (s : String) : literal s (.lit s) = true := decide_eq_true rfl

/-- A natural number as a decimal. -/
theorem natCast_decimal (n : Nat) :
    (Decimal.ofInt n).neg = false ∧ 0 ≤ (Decimal.ofInt n).exponent ∧
      (Decimal.ofInt n).digits * 10 ^ (Decimal.ofInt n).exponent.toNat = n := by
  have hneg : ¬ ((n : Int) < 0) := by omega
  by_cases hn : n = 0
  · subst hn
    decide
  · obtain ⟨k, hexp, hval⟩ := stripZeros_value n n 0
    have hdec : Decimal.ofInt (n : Int) =
        ⟨false, (stripZeros n n 0).1, (stripZeros n n 0).2,
          Or.inr (stripZeros_canonical n n 0 (Nat.pos_of_ne_zero hn) (Nat.le_refl n))⟩ := by
      simp only [Decimal.ofInt, Decimal.of, Int.natAbs_natCast, hn, dite_false, hneg, decide_false]
    have hpow : ((stripZeros n n 0).2).toNat = k := by omega
    rw [hdec]
    refine ⟨rfl, ?_, ?_⟩
    · show 0 ≤ (stripZeros n n 0).2
      omega
    · show (stripZeros n n 0).1 * 10 ^ ((stripZeros n n 0).2).toNat = n
      rw [hpow, ← hval]

theorem safeInt_ofNat (n : Nat) : safeInt (.ofNat n) = decide (n ≤ maxSafeInteger) := by
  obtain ⟨hneg, hexp, hval⟩ := natCast_decimal n
  show (!(Decimal.ofInt n).neg && decide (0 ≤ (Decimal.ofInt n).exponent) &&
    decide ((Decimal.ofInt n).digits * 10 ^ (Decimal.ofInt n).exponent.toNat ≤ maxSafeInteger)) = _
  rw [hneg, decide_eq_true hexp, hval]
  rfl

/-- The difference of two clock readings. -/
theorem safeInt_ofInt (i : Int) :
    safeInt (.num (.ofInt i)) = true ↔ 0 ≤ i ∧ i ≤ maxSafeInteger := by
  by_cases hi : 0 ≤ i
  · obtain ⟨n, rfl⟩ := Int.eq_ofNat_of_zero_le hi
    have h := safeInt_ofNat n
    rw [JsValue.ofNat] at h
    show safeInt (.num (.ofInt (n : Int))) = true ↔ _
    rw [h, decide_eq_true_eq]
    omega
  · refine iff_of_false ?_ fun h => hi h.1
    have hneg : (Decimal.ofInt i).neg = true := by
      have habs : i.natAbs ≠ 0 := by omega
      have hlt : i < 0 := by omega
      simp only [Decimal.ofInt, Decimal.of, habs, dite_false, hlt, decide_true]
    show ¬ (!(Decimal.ofInt i).neg && _ && _) = true
    rw [hneg]
    exact Bool.false_ne_true

theorem posInt_ofNat (n : Nat) : posInt (.ofNat n) = true ↔ 0 < n ∧ n ≤ maxSafeInteger := by
  show (safeInt (.ofNat n) && decide (JsNumber.ofInt n ≠ .ofInt 0)) = true ↔ _
  rw [safeInt_ofNat, Bool.and_eq_true, decide_eq_true_eq, decide_eq_true_eq]
  have hzero : JsNumber.ofInt n ≠ .ofInt 0 ↔ n ≠ 0 := by
    rw [not_iff_not]
    constructor
    · intro h
      exact JsValue.ofNat_injective (congrArg JsValue.num h)
    · rintro rfl
      rfl
  rw [hzero]
  omega

theorem int_iff {v : JsValue} :
    int v = true ↔ ∃ i : Int, v = .num (.ofInt i) ∧ i.natAbs ≤ maxSafeInteger := by
  constructor
  · intro h
    unfold int at h
    split at h
    · rename_i d
      cases hi : d.toInt? with
      | none =>
          rw [hi] at h
          cases h
      | some i =>
          rw [hi] at h
          refine ⟨i, ?_, of_decide_eq_true h⟩
          rw [Decimal.eq_ofInt hi]
          rfl
    · cases h
  · rintro ⟨i, rfl, hle⟩
    show (Decimal.toInt? (.ofInt i)).any _ = true
    rw [Decimal.toInt?_ofInt]
    exact decide_eq_true hle

@[simp] theorem optional_undefined (schema : Schema) : optional schema .undefined = true := rfl

theorem optional_of_defined {schema : Schema} {v : JsValue} (h : v.isUndefined = false) :
    optional schema v = schema v := by
  rw [optional, h, Bool.false_or]

theorem array_map {α : Type} (item : Schema) (max : Nat) (f : α → JsValue) (l : List α) :
    array item max (.arr (l.map f)) = true ↔ l.length ≤ max ∧ ∀ x ∈ l, item (f x) = true := by
  simp [array]

/-- A property of a schema and the value an object has there, if any. -/
structure Property where
  key : JsString
  schema : Schema
  value : Option JsValue

/-- The object that has these properties. -/
def objectOf (l : List Property) : JsObject :=
  l.filterMap fun p => p.value.map fun v => (p.key, v)

theorem objectOf_none {p : Property} (h : p.value = none) (rest : List Property) :
    objectOf (p :: rest) = objectOf rest :=
  List.filterMap_cons_none (by rw [h]; rfl)

theorem objectOf_some {p : Property} {v : JsValue} (h : p.value = some v) (rest : List Property) :
    objectOf (p :: rest) = (p.key, v) :: objectOf rest :=
  List.filterMap_cons_some (by rw [h]; rfl)

theorem keys_objectOf_sublist (l : List Property) :
    (JsObject.keys (objectOf l)).Sublist (l.map Property.key) := by
  induction l with
  | nil => exact List.Sublist.refl _
  | cons p rest ih =>
      obtain ⟨key, schema, value⟩ := p
      cases value with
      | none => exact ih.cons key
      | some v => exact ih.cons_cons key

/-- The value of a property among properties of different names. -/
theorem get_objectOf {l : List Property} (h : (l.map Property.key).Nodup) {p : Property}
    (hp : p ∈ l) : JsObject.get (objectOf l) p.key = p.value.getD .undefined := by
  induction l with
  | nil => cases hp
  | cons q rest ih =>
      rw [List.map_cons, List.nodup_cons] at h
      have hskip : ∀ v key, q.key ≠ key →
          JsObject.get ((q.key, v) :: objectOf rest) key = JsObject.get (objectOf rest) key := by
        intro v key hne
        simp [JsObject.get, hne]
      rcases List.mem_cons.mp hp with rfl | hmem
      · cases hv : p.value with
        | none =>
            have hfind : (objectOf rest).find? (fun e => e.1 == p.key) = none := by
              rw [List.find?_eq_none]
              intro e he hc
              rw [beq_iff_eq] at hc
              exact h.1 ((keys_objectOf_sublist rest).subset (hc ▸ List.mem_map.mpr ⟨e, he, rfl⟩))
            rw [objectOf_none hv, JsObject.get, hfind]
            rfl
        | some v =>
            rw [objectOf_some hv]
            simp [JsObject.get]
      · have hne : q.key ≠ p.key := by
          intro hc
          exact h.1 (hc ▸ List.mem_map.mpr ⟨p, hmem, rfl⟩)
        cases hv : q.value with
        | none =>
            rw [objectOf_none hv]
            exact ih h.2 hmem
        | some v =>
            rw [objectOf_some hv, hskip v p.key hne]
            exact ih h.2 hmem

/-- **An object with no other properties than those of a schema is let through when each of
its values is, and a missing one counts as `undefined`.** -/
theorem strictObject_iff (l : List Property) (h : (l.map Property.key).Nodup) :
    strictObject (l.map fun p => (p.key, p.schema)) (.obj (objectOf l)) = true ↔
      ∀ p ∈ l, p.schema (p.value.getD .undefined) = true := by
  have hknown : (JsObject.keys (objectOf l)).all
      (fun key => key = protoKey || (l.map fun p => (p.key, p.schema)).any fun f => f.1 = key) =
        true := by
    rw [List.all_eq_true]
    intro key hkey
    obtain ⟨p, hp, rfl⟩ := List.mem_map.mp ((keys_objectOf_sublist l).subset hkey)
    rw [Bool.or_eq_true, List.any_eq_true]
    exact Or.inr ⟨(p.key, p.schema), List.mem_map.mpr ⟨p, hp, rfl⟩, decide_eq_true rfl⟩
  rw [strictObject, hknown, Bool.true_and, List.all_map, List.all_eq_true]
  refine forall₂_congr ?_
  intro p hp
  rw [Function.comp_apply, get_objectOf h hp]

end Schema

end HuginAgent
