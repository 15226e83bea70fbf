/-
The configuration of the daemon, `src/config.ts`, `src/auth/paths.ts`, and `loadConfigFromEnv` of
`src/index.ts`.

The stored identity is the baseline, and each variable of the environment replaces one field of it;
what neither says has a default.  A `Config` has passed its schema, so its fields carry what that
says of them, also where they were filled in.  A file that is not read as an identity ends the
daemon, whatever the environment says.
-/
import HuginAgent.Auth.Stored
import HuginAgent.Conn.Signing
import HuginAgent.Jobs.Variants
import HuginAgent.Js.Strings

namespace HuginAgent

/-! ### Paths -/

/-- `process.env`. -/
abbrev ProcessEnv := String → Option JsString

/-- `configDir`.  An override that is the empty string counts as none. -/
def configDir (env : ProcessEnv) (homedir : JsString) : JsString :=
  match env "HUGIND_CONFIG_DIR" with
  | some (u :: dir) => u :: dir
  | _ =>
      match env "XDG_CONFIG_HOME" with
      | some (u :: xdg) => joinPath (u :: xdg) (js "hugin-agent")
      | _ => joinPath homedir (js ".config/hugin-agent")

/-- `configFilePath`. -/
def configFilePath (env : ProcessEnv) (homedir : JsString) : JsString :=
  (env "HUGIND_CONFIG").getD (joinPath (configDir env homedir) (js "config.json"))

/-- `simplePairingGateEnabled`. -/
def simplePairingGateEnabled (value : Option JsString) : Bool :=
  value = some (js "1") || value.any fun v => toLowerCase v = js "true"

/-! ### The schema -/

/-- `z.string()`. -/
def Schema.text : Schema := .string fun _ => true

/-- `z.array(item)`. -/
def Schema.list (item : Schema) : Schema
  | .arr items => items.all item
  | _ => false

inductive IsolationMode
  | homeSwap
  | configDir
deriving DecidableEq

def configFields : List (JsString × Schema) :=
  [(js "serverUrl", .string isServerUrl),
    (js "allowDevOrigin", .optional .boolean),
    (js "agentId", .string isAuthId),
    (js "keyId", .optional (.string isAuthId)),
    (js "agentVersion", .optional (.string isSemVer)),
    (js "protocolVersion", .optional (.string isSemVer)),
    (js "tenantId", .optional (.string isAuthId)),
    (js "projectRoots", .optional (.list .text)),
    (js "stateDir", .optional .text),
    (js "isolation", .optional (.oneOf ["home-swap", "config-dir"])),
    (js "maxConcurrent", .optional (.atMost 64 .posInt)),
    (js "engineCommand", .optional .text),
    (js "dbPath", .optional .text),
    (js "maxUnackedEventsPerAttempt", .optional .posInt),
    (js "maxUnackedBytesPerAttempt", .optional .posInt),
    (js "maxUnackedBytesPerConn", .optional .posInt),
    (js "approvalTimeoutMs", .optional .posInt),
    (js "sessionTurnTimeoutMs", .optional .posInt)]

def configSchema : Schema := .strictObject configFields

/-! ### Defaults -/

/-- A string, or what the schema fills in. -/
def stringOr (default : JsString) : JsValue → JsString
  | .str s => s
  | _ => default

def numberOr (default : JsNumber) : JsValue → JsNumber
  | .num n => n
  | _ => default

def boolOr (default : Bool) : JsValue → Bool
  | .bool b => b
  | _ => default

/-- A string, or nothing. -/
def string? : JsValue → Option JsString
  | .str s => some s
  | _ => none

def rootsOf : JsValue → List JsString
  | .arr items => items.filterMap string?
  | _ => []

theorem stringOr_of_optional {p : JsString → Bool} {default : JsString} {v : JsValue}
    (h : Schema.optional (.string p) v = true) (hdefault : p default = true) :
    p (stringOr default v) = true := by
  rw [Schema.optional, Bool.or_eq_true] at h
  rcases h with h | h
  · cases v with
    | undefined => exact hdefault
    | _ => cases h
  · obtain ⟨s, rfl, hs⟩ := Schema.string_iff.mp h
    exact hs

/-- A number of its own schema, also where it was filled in. -/
theorem numberOr_of_optional {schema : Schema} (hnumber : ∀ v, schema v = true → ∃ n, v = .num n)
    {default : JsNumber} {v : JsValue} (h : Schema.optional schema v = true)
    (hdefault : schema (.num default) = true) : schema (.num (numberOr default v)) = true := by
  rw [Schema.optional, Bool.or_eq_true] at h
  rcases h with h | h
  · cases v with
    | undefined => exact hdefault
    | _ => cases h
  · obtain ⟨n, rfl⟩ := hnumber v h
    exact h

theorem exists_num_of_posInt {v : JsValue} (h : Schema.posInt v = true) : ∃ n, v = .num n := by
  cases v with
  | num n => exact ⟨n, rfl⟩
  | _ => cases h

theorem exists_num_of_atMost {max : Nat} {schema : Schema} {v : JsValue}
    (h : Schema.atMost max schema v = true) : ∃ n, v = .num n := by
  cases v with
  | num n => exact ⟨n, rfl⟩
  | _ => cases h

/-! ### The configuration -/

structure Config where
  serverUrl : JsString
  allowDevOrigin : Bool
  agentId : JsString
  keyId : JsString
  agentVersion : JsString
  protocolVersion : JsString
  tenantId : JsString
  projectRoots : List JsString
  stateDir : JsString
  isolation : IsolationMode
  maxConcurrent : JsNumber
  engineCommand : Option JsString
  dbPath : Option JsString
  maxUnackedEventsPerAttempt : JsNumber
  maxUnackedBytesPerAttempt : JsNumber
  maxUnackedBytesPerConn : JsNumber
  approvalTimeoutMs : JsNumber
  sessionTurnTimeoutMs : JsNumber
  serverUrlOk : isServerUrl serverUrl = true
  agentIdOk : isAuthId agentId = true
  keyIdOk : isAuthId keyId = true
  agentVersionOk : isSemVer agentVersion = true
  protocolVersionOk : isSemVer protocolVersion = true
  tenantIdOk : isAuthId tenantId = true
  maxConcurrentOk : Schema.atMost 64 .posInt (.num maxConcurrent) = true
  limitsOk : ∀ n ∈ [maxUnackedEventsPerAttempt, maxUnackedBytesPerAttempt, maxUnackedBytesPerConn,
    approvalTimeoutMs, sessionTurnTimeoutMs], Schema.posInt (.num n) = true

namespace Config

def isolationOf (v : JsValue) : IsolationMode :=
  if string? v = some (js "config-dir") then .configDir else .homeSwap

theorem limit {raw : JsValue} (h : configSchema raw = true) {key : String}
    (hmem : (js key, Schema.optional .posInt) ∈ configFields) {default : JsNumber}
    (hdefault : Schema.posInt (.num default) = true) :
    Schema.posInt (.num (numberOr default (valueAt raw key))) = true :=
  numberOr_of_optional (fun _ => exists_num_of_posInt) (Schema.valueAt_of_strictObject h hmem)
    hdefault

theorem text {raw : JsValue} (h : configSchema raw = true) {key : String} {p : JsString → Bool}
    (hmem : (js key, Schema.optional (.string p)) ∈ configFields) {default : JsString}
    (hdefault : p default = true) : p (stringOr default (valueAt raw key)) = true :=
  stringOr_of_optional (Schema.valueAt_of_strictObject h hmem) hdefault

/-! ### What is loaded -/

section loaded

variable {raw : JsValue} (h : configSchema raw = true)

include h

theorem serverUrl_loaded : isServerUrl (stringAt raw "serverUrl") = true :=
  Schema.stringAt_of_strictObject h (by simp [configFields])

theorem agentId_loaded : isAuthId (stringAt raw "agentId") = true :=
  Schema.stringAt_of_strictObject h (by simp [configFields])

theorem keyId_loaded : isAuthId (stringOr (js "dev-key") (valueAt raw "keyId")) = true :=
  text h (by simp [configFields]) (by decide)

theorem agentVersion_loaded :
    isSemVer (stringOr (js "0.0.0") (valueAt raw "agentVersion")) = true :=
  text h (by simp [configFields]) (by decide)

theorem protocolVersion_loaded :
    isSemVer (stringOr (js "2.0.0") (valueAt raw "protocolVersion")) = true :=
  text h (by simp [configFields]) (by decide)

theorem tenantId_loaded : isAuthId (stringOr (js "dev-tenant") (valueAt raw "tenantId")) = true :=
  text h (by simp [configFields]) (by decide)

theorem maxConcurrent_loaded : Schema.atMost 64 .posInt
    (.num (numberOr (.ofInt 2) (valueAt raw "maxConcurrent"))) = true :=
  numberOr_of_optional (fun _ => exists_num_of_atMost)
    (Schema.valueAt_of_strictObject h (by simp [configFields])) (by decide)

theorem limits_loaded :
    ∀ n ∈ [numberOr (.ofInt 1024) (valueAt raw "maxUnackedEventsPerAttempt"),
      numberOr (.ofInt 8388608) (valueAt raw "maxUnackedBytesPerAttempt"),
      numberOr (.ofInt 33554432) (valueAt raw "maxUnackedBytesPerConn"),
      numberOr (.ofInt 300000) (valueAt raw "approvalTimeoutMs"),
      numberOr (.ofInt 3600000) (valueAt raw "sessionTurnTimeoutMs")],
      Schema.posInt (.num n) = true := by
  simp only [List.forall_mem_cons]
  exact ⟨limit h (by simp [configFields]) (by decide),
    limit h (by simp [configFields]) (by decide),
    limit h (by simp [configFields]) (by decide),
    limit h (by simp [configFields]) (by decide),
    limit h (by simp [configFields]) (by decide),
    List.forall_mem_nil _⟩

end loaded

end Config

/-- `loadConfig`; `none` where it throws. -/
def loadConfig (raw : JsValue) : Option Config :=
  if h : configSchema raw = true then
    some
      { serverUrl := stringAt raw "serverUrl"
        allowDevOrigin := boolOr false (valueAt raw "allowDevOrigin")
        agentId := stringAt raw "agentId"
        keyId := stringOr (js "dev-key") (valueAt raw "keyId")
        agentVersion := stringOr (js "0.0.0") (valueAt raw "agentVersion")
        protocolVersion := stringOr (js "2.0.0") (valueAt raw "protocolVersion")
        tenantId := stringOr (js "dev-tenant") (valueAt raw "tenantId")
        projectRoots := rootsOf (valueAt raw "projectRoots")
        stateDir := stringOr (js ".hugind") (valueAt raw "stateDir")
        isolation := Config.isolationOf (valueAt raw "isolation")
        maxConcurrent := numberOr (.ofInt 2) (valueAt raw "maxConcurrent")
        engineCommand := string? (valueAt raw "engineCommand")
        dbPath := string? (valueAt raw "dbPath")
        maxUnackedEventsPerAttempt :=
          numberOr (.ofInt 1024) (valueAt raw "maxUnackedEventsPerAttempt")
        maxUnackedBytesPerAttempt :=
          numberOr (.ofInt 8388608) (valueAt raw "maxUnackedBytesPerAttempt")
        maxUnackedBytesPerConn := numberOr (.ofInt 33554432) (valueAt raw "maxUnackedBytesPerConn")
        approvalTimeoutMs := numberOr (.ofInt 300000) (valueAt raw "approvalTimeoutMs")
        sessionTurnTimeoutMs := numberOr (.ofInt 3600000) (valueAt raw "sessionTurnTimeoutMs")
        serverUrlOk := Config.serverUrl_loaded h
        agentIdOk := Config.agentId_loaded h
        keyIdOk := Config.keyId_loaded h
        agentVersionOk := Config.agentVersion_loaded h
        protocolVersionOk := Config.protocolVersion_loaded h
        tenantIdOk := Config.tenantId_loaded h
        maxConcurrentOk := Config.maxConcurrent_loaded h
        limitsOk := Config.limits_loaded h }
  else none

/-! ### The environment -/

/-- A variable that is not set is a property that is `undefined`. -/
def envValue : Option JsString → JsValue
  | some s => .str s
  | none => .undefined

/-- `HUGIND_PROJECT_ROOTS?.split(",").map(trim).filter(Boolean) ?? []`. -/
def envRoots (env : ProcessEnv) : List JsString :=
  match env "HUGIND_PROJECT_ROOTS" with
  | none => []
  | some roots => ((splitAll (unit ',') roots).map trim).filter fun root => root ≠ []

/-- What `loadConfigFromEnv` hands to the schema. -/
def envConfig (env : ProcessEnv) (paired : Option PairingConfig) : JsObject :=
  [(js "serverUrl", envValue ((env "HUGIND_SERVER_URL").or (paired.map PairingConfig.serverUrl))),
    (js "agentId", envValue ((env "HUGIND_AGENT_ID").or (paired.map PairingConfig.agentId))),
    (js "keyId", envValue ((env "HUGIND_KEY_ID").or (paired.map PairingConfig.keyId))),
    (js "tenantId", envValue ((env "HUGIND_TENANT_ID").or (paired.map PairingConfig.tenantId))),
    (js "agentVersion", envValue (env "HUGIND_AGENT_VERSION")),
    (js "protocolVersion", envValue (env "HUGIND_PROTOCOL_VERSION")),
    (js "allowDevOrigin", .bool (simplePairingGateEnabled (env "HUGIN_SIMPLE_PAIRING"))),
    (js "projectRoots", .arr ((envRoots env).map .str)),
    (js "stateDir", envValue (env "HUGIND_STATE_DIR")),
    (js "engineCommand", envValue (env "HUGIND_ENGINE_CMD"))]

/-- `loadConfigFromEnv`; `none` where it throws. -/
def loadConfigFromEnv (number : Decimal → JsNumber) (homedir : JsString) (env : ProcessEnv)
    (files : JsString → Option (List UInt8)) : Option Config :=
  (readPairingConfig number (files (configFilePath env homedir))).bind fun paired =>
    loadConfig (.obj (envConfig env paired))

theorem optional_envValue {p : JsString → Bool} {v : Option JsString} :
    Schema.optional (.string p) (envValue v) = true ↔ ∀ s, v = some s → p s = true := by
  cases v with
  | none => exact iff_of_true rfl fun s hs => by cases hs
  | some t =>
      constructor
      · intro h s hs
        obtain rfl := Option.some.inj hs
        exact h
      · exact fun h => h t rfl

theorem string_envValue {p : JsString → Bool} {v : Option JsString} :
    Schema.string p (envValue v) = true ↔ ∃ s, v = some s ∧ p s = true := by
  cases v with
  | none => exact iff_of_false Bool.false_ne_true fun h => by obtain ⟨s, hs, -⟩ := h; cases hs
  | some t =>
      constructor
      · exact fun h => ⟨t, rfl, h⟩
      · rintro ⟨s, hs, hp⟩
        obtain rfl := Option.some.inj hs
        exact hp

/-- What each variable, or the stored identity in its place, has to pass. -/
structure EnvOk (env : ProcessEnv) (paired : Option PairingConfig) : Prop where
  serverUrl : ∃ s, (env "HUGIND_SERVER_URL").or (paired.map PairingConfig.serverUrl) = some s ∧
    isServerUrl s = true
  agentId : ∃ s, (env "HUGIND_AGENT_ID").or (paired.map PairingConfig.agentId) = some s ∧
    isAuthId s = true
  keyId : ∀ s, (env "HUGIND_KEY_ID").or (paired.map PairingConfig.keyId) = some s →
    isAuthId s = true
  tenantId : ∀ s, (env "HUGIND_TENANT_ID").or (paired.map PairingConfig.tenantId) = some s →
    isAuthId s = true
  agentVersion : ∀ s, env "HUGIND_AGENT_VERSION" = some s → isSemVer s = true
  protocolVersion : ∀ s, env "HUGIND_PROTOCOL_VERSION" = some s → isSemVer s = true

theorem list_text_map (texts : List JsString) :
    Schema.list .text (.arr (texts.map .str)) = true := by
  rw [Schema.list, List.all_map, List.all_eq_true]
  exact fun _ _ => rfl

/-- **The environment and the stored identity are let through just when each field is.** -/
theorem configSchema_envConfig {env : ProcessEnv} {paired : Option PairingConfig} :
    configSchema (.obj (envConfig env paired)) = true ↔ EnvOk env paired := by
  have hkeys : (JsObject.keys (envConfig env paired)).all
      (fun key => key = Schema.protoKey || configFields.any fun f => f.1 = key) = true := by
    show ([js "serverUrl", js "agentId", js "keyId", js "tenantId", js "agentVersion",
      js "protocolVersion", js "allowDevOrigin", js "projectRoots", js "stateDir",
      js "engineCommand"].all fun key =>
        key = Schema.protoKey || configFields.any fun f => f.1 = key) = true
    decide +kernel
  rw [configSchema, Schema.strictObject, hkeys, Bool.true_and, List.all_eq_true]
  simp only [configFields, List.forall_mem_cons]
  constructor
  · rintro ⟨hserver, -, hagent, hkey, hagentVersion, hversion, htenant, -⟩
    exact ⟨string_envValue.mp hserver, string_envValue.mp hagent, optional_envValue.mp hkey,
      optional_envValue.mp htenant, optional_envValue.mp hagentVersion,
      optional_envValue.mp hversion⟩
  · intro h
    refine ⟨string_envValue.mpr h.serverUrl, rfl, string_envValue.mpr h.agentId,
      optional_envValue.mpr h.keyId, optional_envValue.mpr h.agentVersion,
      optional_envValue.mpr h.protocolVersion, optional_envValue.mpr h.tenantId, ?_,
      optional_envValue.mpr fun _ _ => rfl, rfl, rfl, optional_envValue.mpr fun _ _ => rfl,
      rfl, rfl, rfl, rfl, rfl, rfl, List.forall_mem_nil _⟩
    exact list_text_map (envRoots env)

/-- What a configuration says, of what it was loaded from. -/
structure Config.Says (config : Config) (env : ProcessEnv) (paired : Option PairingConfig) :
    Prop where
  serverUrl : (env "HUGIND_SERVER_URL").or (paired.map PairingConfig.serverUrl) =
    some config.serverUrl
  agentId : (env "HUGIND_AGENT_ID").or (paired.map PairingConfig.agentId) = some config.agentId
  keyId : config.keyId =
    ((env "HUGIND_KEY_ID").or (paired.map PairingConfig.keyId)).getD (js "dev-key")
  tenantId : config.tenantId =
    ((env "HUGIND_TENANT_ID").or (paired.map PairingConfig.tenantId)).getD (js "dev-tenant")
  agentVersion : config.agentVersion = (env "HUGIND_AGENT_VERSION").getD (js "0.0.0")
  protocolVersion : config.protocolVersion = (env "HUGIND_PROTOCOL_VERSION").getD (js "2.0.0")
  allowDevOrigin : config.allowDevOrigin =
    simplePairingGateEnabled (env "HUGIN_SIMPLE_PAIRING")
  projectRoots : config.projectRoots = envRoots env

theorem stringOr_envValue (default : JsString) (v : Option JsString) :
    stringOr default (envValue v) = v.getD default := by
  cases v <;> rfl

theorem rootsOf_map (texts : List JsString) : rootsOf (.arr (texts.map .str)) = texts := by
  rw [rootsOf, List.filterMap_map]
  exact List.filterMap_some

/-- **What is loaded is the environment, over the stored identity, over the defaults.** -/
theorem loadConfigFromEnv_loads {number : Decimal → JsNumber} {homedir : JsString}
    {env : ProcessEnv} {files : JsString → Option (List UInt8)} {paired : Option PairingConfig}
    (hread : readPairingConfig number (files (configFilePath env homedir)) = some paired)
    (h : EnvOk env paired) :
    ∃ config, loadConfigFromEnv number homedir env files = some config ∧
      config.Says env paired := by
  have hvalid := configSchema_envConfig.mpr h
  obtain ⟨server, hserver, -⟩ := h.serverUrl
  obtain ⟨agent, hagent, -⟩ := h.agentId
  rw [loadConfigFromEnv, hread, Option.bind_some, loadConfig, dif_pos hvalid]
  refine ⟨_, rfl, ?_, ?_, stringOr_envValue _ _, stringOr_envValue _ _, stringOr_envValue _ _,
    stringOr_envValue _ _, rfl, rootsOf_map _⟩
  · show _ = some (stringAt (.obj (envConfig env paired)) "serverUrl")
    have hget : JsObject.get (envConfig env paired) (js "serverUrl") = .str server :=
      congrArg envValue hserver
    rw [hserver, stringAt_of_get hget]
  · show _ = some (stringAt (.obj (envConfig env paired)) "agentId")
    have hget : JsObject.get (envConfig env paired) (js "agentId") = .str agent :=
      congrArg envValue hagent
    rw [hagent, stringAt_of_get hget]

end HuginAgent
