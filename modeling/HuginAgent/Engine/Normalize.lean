/-
Lines of the engines as events, `src/src/engine/normalize.ts`.

A line is whatever JSON the subprocess prints.  Most of what is looked at in it is tested before
it is used, but two things are not: the elements of a message's content, which may be `null`, and
the type, which is taken for a string.  There the reading throws, and nowhere else
(`normalize_total_iff`); what it returns is always of a kind that the protocol has.
-/
import HuginAgent.Engine.Permission
import HuginAgent.History.Records

namespace HuginAgent

/-! ### Values of any shape -/

namespace JsValue

/-- `v?.[key]`, for a name that no array and no string has as a property. -/
def member (v : JsValue) (key : String) : JsValue :=
  match v with
  | .obj fields => JsObject.get fields (js key)
  | _ => .undefined

/-- `null` or `undefined`. -/
def isNullish : JsValue → Bool
  | .undefined | .null => true
  | _ => false

/-- `v && typeof v === "object"`. -/
def isObject : JsValue → Bool
  | .arr _ | .obj _ => true
  | _ => false

/-- Does the value count as true? -/
def truthy : JsValue → Bool
  | .undefined | .null => false
  | .bool b => b
  | .num n => n ≠ .ofInt 0 && n ≠ .nan
  | .str s => s ≠ []
  | .arr _ | .obj _ => true

/-- `v === s`. -/
def isLit (v : JsValue) (s : String) : Bool :=
  match v with
  | .str t => t = js s
  | _ => false

end JsValue

/-! ### Kinds -/

def coreEventKinds : List JsString :=
  ["assistant_text", "tool_use", "tool_result", "usage", "stdout_chunk", "stderr_chunk",
    "system_status", "engine_error"].map js

/-- `[a-z0-9_.]`. -/
def isVendorUnit (u : UInt16) : Bool :=
  (97 ≤ u && u ≤ 122) || isDigit u || u = unit '_' || u = unit '.'

def vendorStart (engine : HistoryEngine) : JsString := js "vendor." ++ engine.text ++ js "."

/-- `/^vendor\.<engine>\.[a-z0-9_.]+$/.test(kind)`. -/
def isVendorKind (engine : HistoryEngine) (kind : JsString) : Bool :=
  let rest := kind.drop (vendorStart engine).length
  (vendorStart engine).isPrefixOf kind && rest ≠ [] && rest.all isVendorUnit

/-- `EventKind` of the protocol. -/
def isEventKind (kind : JsString) : Bool :=
  coreEventKinds.contains kind || isVendorKind .claude kind || isVendorKind .codex kind

/-- What a unit is in `s.toLowerCase().replace(/[^a-z0-9_.]/g, "_")`.  Two units outside ASCII
have lower-case letters of it in their place, an `i` with a dot and a `k`. -/
def vendorUnits (u : UInt16) : JsString :=
  if 65 ≤ u && u ≤ 90 then [u + 32]
  else if isVendorUnit u then [u]
  else if u = 0x130 then js "i_"
  else if u = 0x212A then js "k"
  else js "_"

/-- The kind under the engine's namespace; `none` where `toLowerCase` is called on what is no
string. -/
def vendorKind (engine : HistoryEngine) (suffix : JsValue) : Option JsString :=
  match if suffix.truthy then suffix else .lit "unknown" with
  | .str s => some (vendorStart engine ++ s.flatMap vendorUnits)
  | _ => none

/-! ### Claude -/

/-- A block of a type that is not known: `` `<role>_${b.type ?? "block"}` ``. -/
def vendorBlock (role : String) (b : JsValue) : Option JsObject :=
  ((stringOf ((b.member "type").orElse (.lit "block"))).bind fun type =>
    vendorKind .claude (.str (js role ++ unit '_' :: type))).map fun kind =>
      [(js "kind", .str kind), (js "block", b)]

/-- The event for a block of an assistant message; `none` where reading it throws. -/
def assistantBlock (b : JsValue) : Option JsObject :=
  if b.isNullish then none
  else if (b.member "type").isLit "text" && (stringFromUnknown (b.member "text")).isSome then
    some [(js "kind", .lit "assistant_text"), (js "text", b.member "text")]
  else if (b.member "type").isLit "tool_use" then
    some [(js "kind", .lit "tool_use"), (js "tool_name", b.member "name"),
      (js "tool_use_id", b.member "id"), (js "input", b.member "input")]
  else vendorBlock "assistant" b

/-- The event for a block of a user message; `none` where reading it throws. -/
def userBlock (b : JsValue) : Option JsObject :=
  if b.isNullish then none
  else if (b.member "type").isLit "tool_result" then
    some [(js "kind", .lit "tool_result"), (js "tool_use_id", b.member "tool_use_id"),
      (js "is_error", (b.member "is_error").orElse (.bool false)),
      (js "content", b.member "content")]
  else vendorBlock "user" b

def claudeUsage (message : JsValue) : List JsObject :=
  if (message.member "usage").truthy then
    [[(js "kind", .lit "usage"), (js "usage", message.member "usage")]]
  else []

/-- The events of a line; `none` where reading it throws. -/
def normalizeClaudeLine (line : JsValue) : Option (List JsObject) :=
  if line.isObject then
    let type := line.member "type"
    let message := line.member "message"
    if type.isLit "system" then
      some [[(js "kind", .lit "system_status"),
        (js "subtype", (line.member "subtype").orElse (.lit "system"))]]
    else if type.isLit "assistant" then
      match message.member "content" with
      | .arr content =>
          (content.mapM assistantBlock).map fun events => events ++ claudeUsage message
      | .str content =>
          some ([(js "kind", .lit "assistant_text"), (js "text", .str content)] ::
            claudeUsage message)
      | _ => some (claudeUsage message)
    else if type.isLit "user" then
      match message.member "content" with
      | .arr content => content.mapM userBlock
      | _ => some []
    else if type.isLit "result" then
      some [[(js "kind", .lit "usage"), (js "subtype", line.member "subtype"),
        (js "usage", line.member "usage"), (js "cost_usd", line.member "total_cost_usd"),
        (js "duration_ms", line.member "duration_ms"),
        (js "is_error", (line.member "is_error").orElse (.bool false))]]
    else
      (vendorKind .claude (type.orElse (.lit "unknown"))).map fun kind =>
        [[(js "kind", .str kind), (js "raw", line)]]
  else some []

/-! ### Codex -/

def objectValue : JsValue → Option JsObject
  | .obj fields => some fields
  | _ => none

/-- A string that is not empty. -/
def stringValue (v : JsValue) : Option JsString := nonEmpty (stringFromUnknown v)

def optionalString (s : Option JsString) : JsValue := .optional .str s

def codexPartText (part : JsValue) : Option JsString :=
  if part.member "type" |>.isLit "output_text" then stringFromUnknown (part.member "text")
  else if part.member "type" |>.isLit "text" then stringFromUnknown (part.member "text")
  else none

def codexContentText : JsValue → JsString
  | .str content => content
  | .arr content => (content.filterMap codexPartText).flatten
  | _ => []

def codexAssistantText (item : JsValue) : JsString :=
  let type := item.member "type"
  let message := stringFromUnknown (item.member "message")
  if (type.isLit "agent_message" || type.isLit "assistant_message") && message.isSome then
    message.getD []
  else if type.isLit "message" && (item.member "role").isLit "assistant" then
    codexContentText (item.member "content")
  else if ((item.member "role").isLit "assistant" || type.isLit "assistant") && message.isSome then
    message.getD []
  else []

def isCodexFunctionCall (item : JsValue) : Bool :=
  (item.member "type").isLit "function_call" || (stringFromUnknown (item.member "name")).isSome

/-- `[lineType, candidateType].filter(Boolean).join("_") || "unknown"`. -/
def codexSuffix (lineType candidateType : Option JsString) : JsString :=
  (nonEmpty (some (join '_' (lineType.toList ++ candidateType.toList)))).getD (js "unknown")

/-- The events of a line; `none` where reading it throws. -/
def normalizeCodexLine (line : JsValue) : Option (List JsObject) :=
  match line with
  | .obj fields =>
      let lineType := stringValue (line.member "type")
      let payload := objectValue (line.member "payload")
      let candidate : JsValue := .obj ((payload.or (objectValue (line.member "item"))).or
        (objectValue (line.member "delta")) |>.getD fields)
      let candidateType := stringValue (candidate.member "type")
      let id := (stringValue (candidate.member "call_id")).or (stringValue (candidate.member "id"))
      let text := codexAssistantText candidate
      if text ≠ [] then some [[(js "kind", .lit "assistant_text"), (js "text", .str text)]]
      else if isCodexFunctionCall candidate then
        some [[(js "kind", .lit "tool_use"),
          (js "tool_name", optionalString (stringValue (candidate.member "name"))),
          (js "tool_use_id", optionalString id),
          (js "input", (candidate.member "arguments").orElse (candidate.member "input"))]]
      else if candidateType = some (js "function_call_output") then
        some [[(js "kind", .lit "tool_result"), (js "tool_use_id", optionalString id),
          (js "is_error", match candidate.member "is_error" with
            | .bool b => .bool b
            | _ => .bool false),
          (js "content", (candidate.member "output").orElse (candidate.member "content"))]]
      else if candidateType = some (js "token_count") || (candidate.member "usage").truthy ||
          (line.member "usage").truthy then
        some [[(js "kind", .lit "usage"), (js "usage",
          (((candidate.member "usage").orElse (line.member "usage")).orElse
            (candidate.member "info")).orElse candidate)]]
      else
        (vendorKind .codex (.str (codexSuffix lineType candidateType))).map fun kind =>
          [[(js "kind", .str kind), (js "raw", line)]]
  | _ => some []

/-! ### Totality -/

def HasEventKind (ev : JsObject) : Prop :=
  ∃ kind, ev.get (js "kind") = .str kind ∧ isEventKind kind = true

/-- Events are returned, and all of a kind of the protocol. -/
def Normalized (events : Option (List JsObject)) : Prop :=
  ∃ evs, events = some evs ∧ ∀ ev ∈ evs, HasEventKind ev

/-- A block that is there, and whose type has a text. -/
structure PlainBlock (b : JsValue) : Prop where
  present : b.isNullish = false
  named : (stringOf ((b.member "type").orElse (.lit "block"))).isSome = true

/-- The condition on a line: every block of an assistant's or a user's message is plain, and
another type is a string or counts as false. -/
structure PlainLine (line : JsValue) : Prop where
  blocks : ∀ content, ((line.member "type").isLit "assistant" ∨ (line.member "type").isLit "user") →
    (line.member "message").member "content" = .arr content → ∀ b ∈ content, PlainBlock b
  type : (line.member "type").truthy = true → ∃ s, line.member "type" = .str s

theorem isVendorUnit_vendorUnits (u : UInt16) : (vendorUnits u).all isVendorUnit = true := by
  unfold vendorUnits
  split
  · rename_i h
    rw [Bool.and_eq_true, decide_eq_true_eq, decide_eq_true_eq, UInt16.le_iff_toNat_le,
      UInt16.le_iff_toNat_le] at h
    have hlow : 65 ≤ u.toNat := h.1
    have hhigh : u.toNat ≤ 90 := h.2
    have hsum : (u + 32).toNat = u.toNat + 32 := by
      rw [UInt16.toNat_add]
      exact Nat.mod_eq_of_lt (by show u.toNat + 32 < 65536; omega)
    have hletter : 97 ≤ u + 32 ∧ u + 32 ≤ 122 := by
      rw [UInt16.le_iff_toNat_le, UInt16.le_iff_toNat_le, hsum]
      show 97 ≤ _ ∧ _ ≤ 122
      omega
    rw [List.all_cons, List.all_nil, Bool.and_true, isVendorUnit, decide_eq_true hletter.1,
      decide_eq_true hletter.2]
    rfl
  split
  · rename_i _ h
    rw [List.all_cons, List.all_nil, Bool.and_true]
    exact h
  split
  · decide
  split
  · decide
  · decide

theorem vendorUnits_ne_nil (u : UInt16) : vendorUnits u ≠ [] := by
  unfold vendorUnits
  split
  · exact List.cons_ne_nil _ _
  split
  · exact List.cons_ne_nil _ _
  split
  · decide
  split
  · decide
  · decide

theorem isEventKind_vendor {engine : HistoryEngine} {s : JsString} (hs : s ≠ []) :
    isEventKind (vendorStart engine ++ s.flatMap vendorUnits) = true := by
  have hne : s.flatMap vendorUnits ≠ [] := by
    obtain ⟨u, rest, rfl⟩ := List.exists_cons_of_ne_nil hs
    rw [List.flatMap_cons]
    exact List.append_ne_nil_of_left_ne_nil (vendorUnits_ne_nil u) _
  have hall : (s.flatMap vendorUnits).all isVendorUnit = true := by
    rw [List.all_flatMap, List.all_eq_true]
    exact fun u _ => isVendorUnit_vendorUnits u
  have hvendor : isVendorKind engine (vendorStart engine ++ s.flatMap vendorUnits) = true := by
    unfold isVendorKind
    dsimp only
    rw [List.drop_left, hall, List.isPrefixOf_iff_prefix.mpr (List.prefix_append _ _),
      decide_eq_true hne]
    rfl
  unfold isEventKind
  cases engine with
  | claude => rw [hvendor, Bool.or_true, Bool.true_or]
  | codex => rw [hvendor, Bool.or_true]

theorem vendorKind_str (engine : HistoryEngine) (s : JsString) :
    ∃ kind, vendorKind engine (.str s) = some kind ∧ isEventKind kind = true := by
  unfold vendorKind
  by_cases hs : s = []
  · rw [hs]
    exact ⟨_, rfl, isEventKind_vendor (s := js "unknown") (by decide)⟩
  · rw [JsValue.truthy, decide_eq_true hs, if_pos rfl]
    exact ⟨_, rfl, isEventKind_vendor hs⟩

/-- The kind is made of a string, or of what counts as false. -/
theorem vendorKind_iff (engine : HistoryEngine) (suffix : JsValue) :
    (∃ kind, vendorKind engine suffix = some kind ∧ isEventKind kind = true) ↔
      (suffix.truthy = true → ∃ s, suffix = .str s) := by
  by_cases htruthy : suffix.truthy = true
  · constructor
    · rintro ⟨kind, hkind, -⟩ -
      unfold vendorKind at hkind
      rw [if_pos htruthy] at hkind
      split at hkind
      · exact ⟨_, rfl⟩
      · exact nomatch hkind
    · intro h
      obtain ⟨s, rfl⟩ := h htruthy
      exact vendorKind_str engine s
  · refine iff_of_true ?_ fun h => absurd h htruthy
    unfold vendorKind
    rw [if_neg htruthy]
    exact ⟨_, rfl, isEventKind_vendor (s := js "unknown") (by decide)⟩

/-! ### The blocks -/

theorem hasEventKind_cons {kind : JsString} (h : isEventKind kind = true) (rest : JsObject) :
    HasEventKind ((js "kind", .str kind) :: rest) := by
  refine ⟨kind, ?_, h⟩
  rw [JsObject.get, List.find?_cons, beq_self_eq_true]

/-- What is read of every element is read of the list. -/
theorem mapM_some_iff {α β : Type} {f : α → Option β} {P : β → Prop} (l : List α) :
    (∃ r, l.mapM f = some r ∧ ∀ y ∈ r, P y) ↔ ∀ x ∈ l, ∃ y, f x = some y ∧ P y := by
  induction l with
  | nil => exact iff_of_true ⟨[], rfl, List.forall_mem_nil P⟩ (List.forall_mem_nil _)
  | cons x rest ih =>
      rw [List.forall_mem_cons, ← ih]
      constructor
      · rintro ⟨r, hr, hall⟩
        rw [List.mapM_cons, Option.bind_eq_bind, Option.bind_eq_some_iff] at hr
        obtain ⟨y, hy, hr⟩ := hr
        rw [Option.bind_eq_bind, Option.bind_eq_some_iff] at hr
        obtain ⟨ys, hys, hr⟩ := hr
        obtain rfl := Option.some.inj hr
        obtain ⟨hP, hPs⟩ := List.forall_mem_cons.mp hall
        exact ⟨⟨y, hy, hP⟩, ys, hys, hPs⟩
      · rintro ⟨⟨y, hy, hP⟩, ys, hys, hPs⟩
        refine ⟨y :: ys, ?_, List.forall_mem_cons.mpr ⟨hP, hPs⟩⟩
        rw [List.mapM_cons, hy, hys]
        rfl

/-- What is read, element by element. -/
theorem mapM_getD {α β : Type} {f : α → Option (List β)} {l : List α} {r : List (List β)}
    (h : l.mapM f = some r) : (∀ x ∈ l, (f x).isSome = true) ∧ r = l.map fun x => (f x).getD [] := by
  induction l generalizing r with
  | nil =>
      obtain rfl := Option.some.inj h
      exact ⟨List.forall_mem_nil _, rfl⟩
  | cons x rest ih =>
      rw [List.mapM_cons, Option.bind_eq_bind, Option.bind_eq_some_iff] at h
      obtain ⟨y, hx, h⟩ := h
      rw [Option.bind_eq_bind, Option.bind_eq_some_iff] at h
      obtain ⟨more, hmore, h⟩ := h
      obtain rfl := Option.some.inj h
      obtain ⟨hall, rfl⟩ := ih hmore
      refine ⟨List.forall_mem_cons.mpr ⟨by rw [hx]; rfl, hall⟩, ?_⟩
      rw [List.map_cons, hx]
      rfl

theorem vendorBlock_iff (role : String) (b : JsValue) :
    (∃ ev, vendorBlock role b = some ev ∧ HasEventKind ev) ↔
      (stringOf ((b.member "type").orElse (.lit "block"))).isSome = true := by
  unfold vendorBlock
  cases stringOf ((b.member "type").orElse (.lit "block")) with
  | none =>
      refine iff_of_false ?_ Bool.false_ne_true
      rintro ⟨ev, hev, -⟩
      exact nomatch hev
  | some type =>
      refine iff_of_true ?_ rfl
      obtain ⟨kind, hkind, hevent⟩ := vendorKind_str .claude (js role ++ unit '_' :: type)
      rw [Option.bind_some, hkind]
      exact ⟨_, rfl, hasEventKind_cons hevent _⟩

/-- A type that is a known text has it as its text. -/
theorem stringOf_of_isLit {v : JsValue} {s : String} (h : v.isLit s = true) :
    (stringOf (v.orElse (.lit "block"))).isSome = true := by
  unfold JsValue.isLit at h
  split at h
  · rfl
  · exact absurd h Bool.false_ne_true

theorem assistantBlock_iff (b : JsValue) :
    (∃ ev, assistantBlock b = some ev ∧ HasEventKind ev) ↔ PlainBlock b := by
  unfold assistantBlock
  by_cases hnull : b.isNullish = true
  · rw [if_pos hnull]
    refine iff_of_false (fun h => nomatch h.choose_spec.1) fun h => ?_
    rw [h.present] at hnull
    exact Bool.false_ne_true hnull
  rw [if_neg hnull]
  have hpresent : b.isNullish = false := Bool.eq_false_iff.mpr hnull
  by_cases htext : ((b.member "type").isLit "text" &&
      (stringFromUnknown (b.member "text")).isSome) = true
  · rw [if_pos htext]
    rw [Bool.and_eq_true] at htext
    exact iff_of_true ⟨_, rfl, hasEventKind_cons (by decide) _⟩ ⟨hpresent, stringOf_of_isLit htext.1⟩
  rw [if_neg htext]
  by_cases htool : (b.member "type").isLit "tool_use" = true
  · rw [if_pos htool]
    exact iff_of_true ⟨_, rfl, hasEventKind_cons (by decide) _⟩ ⟨hpresent, stringOf_of_isLit htool⟩
  · rw [if_neg htool, vendorBlock_iff "assistant"]
    exact ⟨fun h => ⟨hpresent, h⟩, fun h => h.named⟩

theorem userBlock_iff (b : JsValue) :
    (∃ ev, userBlock b = some ev ∧ HasEventKind ev) ↔ PlainBlock b := by
  unfold userBlock
  by_cases hnull : b.isNullish = true
  · rw [if_pos hnull]
    refine iff_of_false (fun h => nomatch h.choose_spec.1) fun h => ?_
    rw [h.present] at hnull
    exact Bool.false_ne_true hnull
  rw [if_neg hnull]
  have hpresent : b.isNullish = false := Bool.eq_false_iff.mpr hnull
  by_cases htool : (b.member "type").isLit "tool_result" = true
  · rw [if_pos htool]
    exact iff_of_true ⟨_, rfl, hasEventKind_cons (by decide) _⟩ ⟨hpresent, stringOf_of_isLit htool⟩
  · rw [if_neg htool, vendorBlock_iff "user"]
    exact ⟨fun h => ⟨hpresent, h⟩, fun h => h.named⟩

/-! ### The lines -/

theorem eq_of_isLit {v : JsValue} {s : String} (h : v.isLit s = true) : v = .lit s := by
  unfold JsValue.isLit at h
  split at h
  · rw [of_decide_eq_true h]
    rfl
  · exact absurd h Bool.false_ne_true

theorem normalized_append {events : Option (List JsObject)} {more : List JsObject}
    (hmore : ∀ ev ∈ more, HasEventKind ev) :
    Normalized (events.map fun evs => evs ++ more) ↔ Normalized events := by
  constructor
  · rintro ⟨evs, hevs, hall⟩
    obtain ⟨first, rfl, rfl⟩ := Option.map_eq_some_iff.mp hevs
    exact ⟨first, rfl, fun ev hev => hall ev (List.mem_append_left _ hev)⟩
  · rintro ⟨evs, rfl, hall⟩
    refine ⟨evs ++ more, rfl, fun ev hev => ?_⟩
    rcases List.mem_append.mp hev with hev | hev
    · exact hall ev hev
    · exact hmore ev hev

theorem normalized_singleton {kind : JsString} (h : isEventKind kind = true) (rest : JsObject) :
    Normalized (some [(js "kind", .str kind) :: rest]) :=
  ⟨_, rfl, List.forall_mem_singleton.mpr (hasEventKind_cons h rest)⟩

theorem normalized_nil : Normalized (some []) := ⟨[], rfl, List.forall_mem_nil _⟩

/-- A line of another type than a message's is plain when its type is. -/
theorem plainLine_of_type {line : JsValue} (hassistant : (line.member "type").isLit "assistant" = false)
    (huser : (line.member "type").isLit "user" = false) :
    PlainLine line ↔ ((line.member "type").truthy = true → ∃ s, line.member "type" = .str s) := by
  constructor
  · exact fun h => h.type
  · intro h
    refine ⟨?_, h⟩
    intro content hrole
    rw [hassistant, huser] at hrole
    rcases hrole with hrole | hrole
    · exact absurd hrole Bool.false_ne_true
    · exact absurd hrole Bool.false_ne_true

/-- A line with a message is plain when the blocks of its content are. -/
theorem plainLine_of_message {line : JsValue} {role : String}
    (htype : line.member "type" = .lit role) (hrole : role = "assistant" ∨ role = "user") :
    PlainLine line ↔ ∀ content, (line.member "message").member "content" = .arr content →
      ∀ b ∈ content, PlainBlock b := by
  constructor
  · intro h content
    refine h.blocks content ?_
    rw [htype]
    rcases hrole with rfl | rfl
    · exact Or.inl (by decide)
    · exact Or.inr (by decide)
  · intro h
    exact ⟨fun content _ => h content, fun _ => ⟨_, htype⟩⟩

theorem claudeUsage_kind (message : JsValue) : ∀ ev ∈ claudeUsage message, HasEventKind ev := by
  unfold claudeUsage
  split
  · exact List.forall_mem_singleton.mpr (hasEventKind_cons (by decide) _)
  · exact List.forall_mem_nil _

theorem member_of_not_object {v : JsValue} (h : v.isObject = false) (key : String) :
    v.member key = .undefined := by
  cases v with
  | arr items => exact nomatch h
  | obj fields => exact nomatch h
  | undefined => rfl
  | null => rfl
  | bool b => rfl
  | num n => rfl
  | str s => rfl

theorem vendorLine_iff (type line : JsValue) :
    Normalized ((vendorKind .claude (type.orElse (.lit "unknown"))).map fun kind =>
        [[(js "kind", .str kind), (js "raw", line)]]) ↔
      (type.truthy = true → ∃ s, type = .str s) := by
  have hor : ((type.orElse (.lit "unknown")).truthy = true → ∃ s, type.orElse (.lit "unknown") = .str s) ↔
      (type.truthy = true → ∃ s, type = .str s) := by
    cases type with
    | undefined => exact iff_of_true (fun _ => ⟨_, rfl⟩) fun h => nomatch h
    | null => exact iff_of_true (fun _ => ⟨_, rfl⟩) fun h => nomatch h
    | bool b => exact Iff.rfl
    | num n => exact Iff.rfl
    | str s => exact Iff.rfl
    | arr items => exact Iff.rfl
    | obj fields => exact Iff.rfl
  rw [← hor, ← vendorKind_iff .claude]
  constructor
  · rintro ⟨evs, hevs, hall⟩
    obtain ⟨kind, hkind, rfl⟩ := Option.map_eq_some_iff.mp hevs
    obtain ⟨kind', hget, hevent⟩ := List.forall_mem_singleton.mp hall
    rw [JsObject.get, List.find?_cons, beq_self_eq_true] at hget
    obtain rfl := JsValue.str.inj hget
    exact ⟨kind, hkind, hevent⟩
  · rintro ⟨kind, hkind, hevent⟩
    rw [hkind]
    exact normalized_singleton hevent _

/-- A line of Claude is read when it is plain. -/
theorem normalizeClaudeLine_iff (line : JsValue) :
    Normalized (normalizeClaudeLine line) ↔ PlainLine line := by
  unfold normalizeClaudeLine
  by_cases hobject : line.isObject = true
  · rw [if_pos hobject]
    dsimp only
    by_cases hsystem : (line.member "type").isLit "system" = true
    · rw [if_pos hsystem]
      have htype := eq_of_isLit hsystem
      refine iff_of_true (normalized_singleton (by decide) _) ?_
      rw [plainLine_of_type (by rw [htype]; decide) (by rw [htype]; decide)]
      exact fun _ => ⟨_, htype⟩
    rw [if_neg hsystem]
    by_cases hassistant : (line.member "type").isLit "assistant" = true
    · rw [if_pos hassistant, plainLine_of_message (eq_of_isLit hassistant) (Or.inl rfl)]
      cases hcontent : (line.member "message").member "content" with
      | arr content =>
          dsimp only
          rw [normalized_append (claudeUsage_kind _)]
          refine (mapM_some_iff content).trans ?_
          simp only [assistantBlock_iff, JsValue.arr.injEq, forall_eq']
      | str content =>
          refine iff_of_true ⟨_, rfl, ?_⟩ fun _ h => nomatch h
          exact List.forall_mem_cons.mpr ⟨hasEventKind_cons (by decide) _, claudeUsage_kind _⟩
      | undefined => exact iff_of_true ⟨_, rfl, claudeUsage_kind _⟩ fun _ h => nomatch h
      | null => exact iff_of_true ⟨_, rfl, claudeUsage_kind _⟩ fun _ h => nomatch h
      | bool b => exact iff_of_true ⟨_, rfl, claudeUsage_kind _⟩ fun _ h => nomatch h
      | num n => exact iff_of_true ⟨_, rfl, claudeUsage_kind _⟩ fun _ h => nomatch h
      | obj fields => exact iff_of_true ⟨_, rfl, claudeUsage_kind _⟩ fun _ h => nomatch h
    rw [if_neg hassistant]
    by_cases huser : (line.member "type").isLit "user" = true
    · rw [if_pos huser, plainLine_of_message (eq_of_isLit huser) (Or.inr rfl)]
      cases hcontent : (line.member "message").member "content" with
      | arr content =>
          refine (mapM_some_iff content).trans ?_
          simp only [userBlock_iff, JsValue.arr.injEq, forall_eq']
      | str content => exact iff_of_true normalized_nil fun _ h => nomatch h
      | undefined => exact iff_of_true normalized_nil fun _ h => nomatch h
      | null => exact iff_of_true normalized_nil fun _ h => nomatch h
      | bool b => exact iff_of_true normalized_nil fun _ h => nomatch h
      | num n => exact iff_of_true normalized_nil fun _ h => nomatch h
      | obj fields => exact iff_of_true normalized_nil fun _ h => nomatch h
    rw [if_neg huser]
    have hplain := plainLine_of_type (Bool.eq_false_iff.mpr hassistant) (Bool.eq_false_iff.mpr huser)
    by_cases hresult : (line.member "type").isLit "result" = true
    · rw [if_pos hresult, hplain]
      exact iff_of_true (normalized_singleton (by decide) _) fun _ => ⟨_, eq_of_isLit hresult⟩
    · rw [if_neg hresult, hplain]
      exact vendorLine_iff _ line
  · rw [if_neg hobject]
    have hmember := member_of_not_object (Bool.eq_false_iff.mpr hobject)
    refine iff_of_true normalized_nil ?_
    rw [plainLine_of_type (by rw [hmember]; rfl) (by rw [hmember]; rfl), hmember]
    exact fun h => nomatch h

/-- A line of Codex is always read. -/
theorem normalizeCodexLine_normalized (line : JsValue) : Normalized (normalizeCodexLine line) := by
  unfold normalizeCodexLine
  split
  · dsimp only
    split
    · exact normalized_singleton (by decide) _
    split
    · exact normalized_singleton (by decide) _
    split
    · exact normalized_singleton (by decide) _
    split
    · exact normalized_singleton (by decide) _
    · obtain ⟨kind, hkind, hevent⟩ := vendorKind_str .codex (codexSuffix _ _)
      rw [hkind]
      exact normalized_singleton hevent _
  · exact normalized_nil

/-- **A line becomes events of the protocol's kinds when it is plain, and otherwise reading it
throws.** -/
theorem normalize_total_iff (line : JsValue) :
    (Normalized (normalizeClaudeLine line) ∧ Normalized (normalizeCodexLine line)) ↔
      PlainLine line := by
  rw [normalizeClaudeLine_iff]
  exact and_iff_left (normalizeCodexLine_normalized line)

/-- `null` among the blocks of a message. -/
theorem null_block_throws :
    ¬ Normalized (normalizeClaudeLine (.obj [(js "type", .lit "assistant"),
      (js "message", .obj [(js "content", .arr [.null])])])) := by
  rintro ⟨evs, hevs, -⟩
  have hthrows : normalizeClaudeLine (.obj [(js "type", .lit "assistant"),
      (js "message", .obj [(js "content", .arr [.null])])]) = none := by decide
  rw [hthrows] at hevs
  exact nomatch hevs

end HuginAgent
