/-
The identity on the host, `src/auth/config-file.ts` and `src/auth/keystore.ts`.

What is not secret of an identity is in a file, and the seed of its key in the keychain, under the
id of the key.  The file is written in place, so that a host that dies meanwhile leaves any part of
it; what is left is either the whole record or nothing that is read as one
(`readPairingConfig_torn`).

The tests keep the seeds in a map instead of the keychain.  It answers as the keychain does
(`stores_agree`), which is a foreign module here: of its entries only what it documents is used.
-/
import HuginAgent.Auth.Connect
import HuginAgent.Js.Carried
import HuginAgent.Js.Pretty
import HuginAgent.Relay.Hello

namespace HuginAgent

/-! ### The file -/

/-- The bytes of the file, `JSON.stringify(validated, null, 2)` and a line break. -/
def configFileBytes (validated : JsObject) : List UInt8 :=
  utf8Encode (prettyText 0 (.obj validated) ++ [unit '\n'])

/-- `PairingConfigFile.parse`. -/
def PairingConfig.ofValue (v : JsValue) : Option PairingConfig :=
  if pairingConfigFile v then
    some ⟨stringAt v "serverUrl", stringAt v "agentId", stringAt v "keyId", stringAt v "tenantId"⟩
  else none

/-- `readPairingConfig`, of what stands at the path; `none` where it throws. -/
def readPairingConfig (number : Decimal → JsNumber) :
    Option (List UInt8) → Option (Option PairingConfig)
  | none => some none
  | some bytes =>
      (((parse (utf8Decode bytes)).map (JsValue.loaded number)).bind PairingConfig.ofValue).map some

section

variable {number : Decimal → JsNumber} {cfg : PairingConfig} {validated : JsObject}

theorem PairingConfig.areNames (cfg : PairingConfig) :
    JsObject.AreNames (JsObject.keys cfg.fields) := by
  exact (by decide : JsObject.AreNames
    [js "version", js "serverUrl", js "agentId", js "keyId", js "tenantId"])

theorem PairingConfig.carried_fields (hkeeps : KeepsIntegers number) (cfg : PairingConfig) :
    (JsValue.obj cfg.fields).carried number = true := by
  refine JsValue.carried_obj cfg.areNames ?_
  simp [fields, JsValue.carried_ofNat (hkeeps 1 (by decide))]

theorem PairingConfig.ofValue_fields (h : writePairingConfig cfg = some validated) :
    PairingConfig.ofValue (.obj cfg.fields) = some cfg ∧ validated = cfg.fields := by
  unfold writePairingConfig at h
  obtain ⟨hvalid, hsame⟩ := Option.ite_none_right_eq_some.mp h
  refine ⟨?_, (Option.some.inj hsame).symm⟩
  rw [ofValue, if_pos hvalid]
  rfl

/-- **What is written is read.** -/
theorem readPairingConfig_written (hkeeps : KeepsIntegers number)
    (h : writePairingConfig cfg = some validated) :
    readPairingConfig number (some (configFileBytes validated)) = some (some cfg) := by
  obtain ⟨hread, rfl⟩ := PairingConfig.ofValue_fields h
  have hcarried := PairingConfig.carried_fields hkeeps cfg
  have hwhole := parse_prettyFile (.obj cfg.fields) (JsValue.wellFormed_of_carried _ hcarried)
  rw [JsValue.received, JsValue.isUndefined_of_carried hcarried, if_neg Bool.false_ne_true,
    JsValue.onWire_of_carried _ hcarried] at hwhole
  rw [readPairingConfig, configFileBytes]
  change ((Option.map _ (parse (utf8Decode (utf8Encode (prettyText 0 _ ++ lineBreak 0))))).bind
    _).map some = _
  rw [hwhole, Option.map_some, JsValue.loaded_of_carried _ hcarried, Option.bind_some, hread]
  rfl

end

/-! ### A part of the file -/

theorem isAsciiText_append {s t : JsString} (hs : IsAsciiText s) (ht : IsAsciiText t) :
    IsAsciiText (s ++ t) :=
  List.forall_mem_append.mpr ⟨hs, ht⟩

theorem isAsciiText_quoteUnit {u : UInt16} (hu : isAscii u = true) (prevHigh : Bool)
    (rest : JsString) : IsAsciiText (quoteUnit prevHigh u rest) := by
  have hescape : ∀ c : Char, isAscii (unit c) = true → IsAsciiText (escape c) := fun c hc =>
    List.forall_mem_cons.mpr ⟨by decide, List.forall_mem_singleton.mpr hc⟩
  unfold quoteUnit
  split
  · exact hescape _ (by decide)
  split
  · exact hescape _ (by decide)
  split
  · exact hescape _ (by decide)
  split
  · exact hescape _ (by decide)
  split
  · exact hescape _ (by decide)
  split
  · exact hescape _ (by decide)
  split
  · exact hescape _ (by decide)
  split
  · exact unicodeEscape_ascii u
  · exact List.forall_mem_singleton.mpr hu

theorem isAsciiText_quote {s : JsString} (hs : IsAsciiText s) : IsAsciiText (quote s) := by
  have hfrom : ∀ (s : JsString) (prevHigh : Bool), IsAsciiText s →
      IsAsciiText (quoteFrom prevHigh s) := by
    intro s
    induction s with
    | nil => exact fun _ _ => List.forall_mem_nil _
    | cons u rest ih =>
        intro prevHigh h
        obtain ⟨hu, hrest⟩ := List.forall_mem_cons.mp h
        exact isAsciiText_append (isAsciiText_quoteUnit hu prevHigh rest) (ih _ hrest)
  exact List.forall_mem_cons.mpr ⟨by decide, isAsciiText_append (hfrom s false hs)
    (List.forall_mem_singleton.mpr (by decide))⟩

theorem isAsciiText_joinComma {texts : List JsString} (h : ∀ t ∈ texts, IsAsciiText t) :
    IsAsciiText (joinComma texts) := by
  induction texts with
  | nil => exact List.forall_mem_nil _
  | cons t rest ih =>
      obtain ⟨ht, hrest⟩ := List.forall_mem_cons.mp h
      rw [joinComma_cons]
      refine isAsciiText_append ht ?_
      split
      · exact List.forall_mem_nil _
      · exact List.forall_mem_cons.mpr ⟨by decide, ih hrest⟩

theorem isAsciiText_lineBreak (depth : Nat) : IsAsciiText (lineBreak depth) := by
  refine List.forall_mem_cons.mpr ⟨by decide, fun u hu => ?_⟩
  rw [List.eq_of_mem_replicate hu]
  decide

theorem isAsciiText_prettyFields {depth : Nat} {fields : JsObject}
    (h : ∀ p ∈ fields, IsAsciiText p.1 ∧ IsAsciiText (prettyText depth p.2)) :
    ∀ t ∈ prettyFields depth fields, IsAsciiText t := by
  induction fields with
  | nil => exact List.forall_mem_nil _
  | cons p rest ih =>
      obtain ⟨⟨hkey, hvalue⟩, hrest⟩ := List.forall_mem_cons.mp h
      rw [prettyFields]
      split
      · exact ih hrest
      · refine List.forall_mem_cons.mpr ⟨?_, ih hrest⟩
        exact isAsciiText_append (isAsciiText_lineBreak depth)
          (isAsciiText_append (isAsciiText_quote hkey) (List.forall_mem_cons.mpr ⟨by decide,
            List.forall_mem_cons.mpr ⟨by decide, hvalue⟩⟩))

/-- The record of texts in ASCII is a text in ASCII. -/
theorem isAsciiText_configFile {cfg : PairingConfig} (hserver : IsAsciiText cfg.serverUrl)
    (hagent : IsAsciiText cfg.agentId) (hkey : IsAsciiText cfg.keyId)
    (htenant : IsAsciiText cfg.tenantId) :
    IsAsciiText (prettyText 0 (.obj cfg.fields) ++ [unit '\n']) := by
  have hkeys : ∀ key ∈ [js "version", js "serverUrl", js "agentId", js "keyId", js "tenantId"],
      IsAsciiText key := by
    unfold IsAsciiText
    decide
  have hversion : IsAsciiText (prettyText 1 (.ofNat 1)) := by
    unfold IsAsciiText
    decide +kernel
  have hmembers : ∀ t ∈ prettyFields 1 cfg.fields, IsAsciiText t := by
    refine isAsciiText_prettyFields ?_
    simp only [PairingConfig.fields, List.forall_mem_cons]
    exact ⟨⟨hkeys _ (by simp), hversion⟩, ⟨hkeys _ (by simp), isAsciiText_quote hserver⟩,
      ⟨hkeys _ (by simp), isAsciiText_quote hagent⟩, ⟨hkeys _ (by simp), isAsciiText_quote hkey⟩,
      ⟨hkeys _ (by simp), isAsciiText_quote htenant⟩, List.forall_mem_nil _⟩
  refine isAsciiText_append ?_ (List.forall_mem_singleton.mpr (by decide))
  rw [prettyText, bracketed]
  split
  · exact List.forall_mem_cons.mpr ⟨by decide, List.forall_mem_singleton.mpr (by decide)⟩
  · exact List.forall_mem_cons.mpr ⟨by decide, isAsciiText_append
      (isAsciiText_append (isAsciiText_joinComma hmembers) (isAsciiText_lineBreak 0))
      (List.forall_mem_singleton.mpr (by decide))⟩

theorem utf8Decode_ascii {s : JsString} (h : IsAsciiText s) : utf8Decode (utf8Encode s) = s := by
  refine utf8Decode_utf8Encode s ?_
  by_cases hnil : s = []
  · rw [hnil]
    rfl
  · exact sealed_lone (sealed_of_ascii hnil h)

/-- Part of the bytes of a text in ASCII is part of the text. -/
theorem exists_take_of_prefix {s : JsString} (hs : IsAsciiText s) {bytes : List UInt8}
    (h : bytes <+: utf8Encode s) : ∃ n, utf8Decode bytes = s.take n := by
  refine ⟨bytes.length, ?_⟩
  have htake : IsAsciiText (s.take bytes.length) := fun u hu => hs u (List.mem_of_mem_take hu)
  rw [List.prefix_iff_eq_take, utf8Encode_ascii hs, ← List.map_take, ← utf8Encode_ascii htake] at h
  rw [congrArg utf8Decode h, utf8Decode_ascii htake]

/-- **Whatever part of the file has been written, it is read as the whole record or not at all.** -/
theorem readPairingConfig_torn {number : Decimal → JsNumber} (hkeeps : KeepsIntegers number)
    {cfg : PairingConfig} {validated : JsObject} (hvalid : writePairingConfig cfg = some validated)
    (hserver : IsAsciiText cfg.serverUrl) {bytes : List UInt8}
    (h : bytes <+: configFileBytes validated) :
    readPairingConfig number (some bytes) = none ∨
      readPairingConfig number (some bytes) = some (some cfg) := by
  have hwritten := readPairingConfig_written hkeeps hvalid
  obtain ⟨hread, rfl⟩ := PairingConfig.ofValue_fields hvalid
  have hids : pairingConfigFile (.obj cfg.fields) = true :=
    (Option.ite_none_right_eq_some.mp hvalid).1
  have hascii : ∀ {key : String}, (js key, Schema.string isAuthId) ∈
      [(js "version", Schema.optional .one), (js "serverUrl", .string isServerUrl),
        (js "agentId", .string isAuthId), (js "keyId", .string isAuthId),
        (js "tenantId", .string isAuthId)] → IsAsciiText (stringAt (.obj cfg.fields) key) :=
    fun hmem => isAsciiText_of_isAuthId (Schema.stringAt_of_strictObject hids hmem)
  have hagent : IsAsciiText cfg.agentId := @hascii "agentId" (by simp)
  have hkey : IsAsciiText cfg.keyId := @hascii "keyId" (by simp)
  have htenant : IsAsciiText cfg.tenantId := @hascii "tenantId" (by simp)
  have htext := isAsciiText_configFile hserver hagent hkey htenant
  obtain ⟨n, hn⟩ := exists_take_of_prefix htext h
  rw [readPairingConfig, configFileBytes, utf8Decode_ascii htext] at hwritten
  rw [readPairingConfig, hn]
  cases hpart : parse (List.take n (prettyText 0 (.obj cfg.fields) ++ [unit '\n'])) with
  | none => exact Or.inl rfl
  | some w =>
      by_cases hends : w.endsItself = true
      · -- What ends itself is the record.
        right
        cases hwhole : parse (prettyText 0 (.obj cfg.fields) ++ [unit '\n']) with
        | none =>
            rw [hwhole] at hwritten
            cases hwritten
        | some v =>
            rw [hwhole] at hwritten
            rw [← List.take_append_drop n (prettyText 0 (.obj cfg.fields) ++ [unit '\n'])] at hwhole
            rw [← (parse_torn hpart hends hwhole).1]
            exact hwritten
      · left
        cases w with
        | num number => cases number <;> rfl
        | _ => exact absurd rfl hends

/-! ### The keychain -/

/-- `@napi-rs/keyring` for one service: the entries of the accounts.  Where reading or deleting an
entry throws, there is none. -/
structure Keyring (κ : Type) where
  getPassword : κ → JsString → Option JsString
  setPassword : κ → JsString → JsString → κ
  deletePassword : κ → JsString → κ × Bool

/-- What is documented of it. -/
structure Keyring.IsLawful {κ : Type} (ring : Keyring κ) : Prop where
  get_set : ∀ k account password,
    ring.getPassword (ring.setPassword k account password) account = some password
  get_set_of_ne : ∀ k account other password, other ≠ account →
    ring.getPassword (ring.setPassword k account password) other = ring.getPassword k other
  get_delete : ∀ k account, ring.getPassword (ring.deletePassword k account).1 account = none
  get_delete_of_ne : ∀ k account other, other ≠ account →
    ring.getPassword (ring.deletePassword k account).1 other = ring.getPassword k other
  deleted : ∀ k account,
    (ring.deletePassword k account).2 = (ring.getPassword k account).isSome

/-- A call of a `SeedStore`. -/
inductive SeedCall
  | set (keyId : JsString) (seed : List UInt8)
  | get (keyId : JsString)
  | delete (keyId : JsString)

/-- What a call resolves to; `failed` is a rejection. -/
inductive SeedAnswer
  | stored
  | failed
  | seed (seed : Option (List UInt8))
  | deleted (removed : Bool)
deriving DecidableEq

/-- `get` of the store on the keychain. -/
def Keyring.seedOf {κ : Type} (ring : Keyring κ) (k : κ) (keyId : JsString) : Option (List UInt8) :=
  match ring.getPassword k keyId with
  | none => none
  | some stored =>
      if stored = [] then none
      else if (fromBase64Url stored).length = 32 then some (fromBase64Url stored)
      else none

/-- `keychainSeedStore`. -/
def keychainSeedStore {κ : Type} (ring : Keyring κ) (k : κ) : SeedCall → κ × SeedAnswer
  | .set keyId seed =>
      if seed.length ≠ 32 then (k, .failed)
      else (ring.setPassword k keyId (toBase64Url seed), .stored)
  | .get keyId => (k, .seed (ring.seedOf k keyId))
  | .delete keyId =>
      let (k, removed) := ring.deletePassword k keyId
      (k, .deleted removed)

/-- The map of `memorySeedStore`. -/
abbrev SeedMap := JsString → Option (List UInt8)

/-- `memorySeedStore`. -/
def memorySeedStore (seeds : SeedMap) : SeedCall → SeedMap × SeedAnswer
  | .set keyId seed => (Function.update seeds keyId (some seed), .stored)
  | .get keyId => (seeds, .seed (seeds keyId))
  | .delete keyId => (Function.update seeds keyId none, .deleted (seeds keyId).isSome)

/-- It sets seeds only, as `newDeviceKey` makes them. -/
def SeedCall.IsSeed : SeedCall → Prop
  | .set _ seed => seed.length = 32
  | _ => True

section

variable {κ : Type} {ring : Keyring κ}

theorem toBase64Url_seed_ne_nil {seed : List UInt8} (h : seed.length = 32) :
    toBase64Url seed ≠ [] := by
  refine toBase64Url_ne_nil ?_
  rintro rfl
  exact absurd h (by decide)

/-- The keychain holds what the map does. -/
structure Holds (ring : Keyring κ) (k : κ) (seeds : SeedMap) : Prop where
  password : ∀ keyId, ring.getPassword k keyId = (seeds keyId).map toBase64Url
  length : ∀ keyId seed, seeds keyId = some seed → seed.length = 32

theorem Holds.seedOf {k : κ} {seeds : SeedMap} (h : Holds ring k seeds) (keyId : JsString) :
    ring.seedOf k keyId = seeds keyId := by
  have hpassword := h.password keyId
  cases hseed : seeds keyId with
  | none =>
      rw [hseed] at hpassword
      rw [Keyring.seedOf, hpassword]
      rfl
  | some seed =>
      have hlength := h.length keyId seed hseed
      rw [hseed] at hpassword
      rw [Keyring.seedOf, hpassword]
      simp only [Option.map_some, if_neg (toBase64Url_seed_ne_nil hlength),
        fromBase64Url_toBase64Url, if_pos hlength]

/-- One entry changes. -/
theorem Holds.update {k k' : κ} {seeds : SeedMap} (h : Holds ring k seeds) {keyId : JsString}
    {held : Option (List UInt8)} (hlength : ∀ seed, held = some seed → seed.length = 32)
    (hself : ring.getPassword k' keyId = held.map toBase64Url)
    (hother : ∀ other, other ≠ keyId → ring.getPassword k' other = ring.getPassword k other) :
    Holds ring k' (Function.update seeds keyId held) := by
  constructor
  · intro other
    by_cases hsame : other = keyId
    · rw [hsame, hself, Function.update_self]
    · rw [hother other hsame, Function.update_of_ne hsame]
      exact h.password other
  · intro other seed hseed
    by_cases hsame : other = keyId
    · rw [hsame, Function.update_self] at hseed
      exact hlength seed hseed
    · rw [Function.update_of_ne hsame] at hseed
      exact h.length other seed hseed

/-- **A call is answered by both alike, and leaves them alike.** -/
theorem Holds.call (hlawful : ring.IsLawful) {k : κ} {seeds : SeedMap} (h : Holds ring k seeds)
    {c : SeedCall} (hc : c.IsSeed) :
    (keychainSeedStore ring k c).2 = (memorySeedStore seeds c).2 ∧
      Holds ring (keychainSeedStore ring k c).1 (memorySeedStore seeds c).1 := by
  cases c with
  | set keyId seed =>
      have hlength : seed.length = 32 := hc
      rw [keychainSeedStore, if_neg (not_not_intro hlength)]
      exact ⟨rfl, h.update (fun seed' hseed => Option.some.inj hseed ▸ hlength)
        (hlawful.get_set _ _ _) (hlawful.get_set_of_ne _ _ · _)⟩
  | get keyId => exact ⟨congrArg SeedAnswer.seed (h.seedOf keyId), h⟩
  | delete keyId =>
      refine ⟨congrArg SeedAnswer.deleted ?_, h.update (fun seed hseed => by cases hseed)
        (hlawful.get_delete _ _) (hlawful.get_delete_of_ne _ _ ·)⟩
      rw [hlawful.deleted, h.password keyId, Option.isSome_map]

/-- **The map of the tests answers as the keychain does**, whatever is called. -/
theorem stores_agree (hlawful : ring.IsLawful) {k : κ}
    (hempty : ∀ keyId, ring.getPassword k keyId = none) {calls : List SeedCall}
    (hcalls : ∀ c ∈ calls, c.IsSeed) :
    Machine.answers (keychainSeedStore ring) k calls =
      Machine.answers memorySeedStore (fun _ => none) calls := by
  have hstart : Holds ring k fun _ => none := ⟨hempty, fun _ _ hseed => by cases hseed⟩
  exact Machine.answers_eq (P := SeedCall.IsSeed) (fun k seeds c h hc => h.call hlawful hc) hstart
    hcalls

end

/-- A keychain that is a map. -/
def mapRing : Keyring (JsString → Option JsString) where
  getPassword k account := k account
  setPassword k account password := Function.update k account (some password)
  deletePassword k account := (Function.update k account none, (k account).isSome)

theorem isLawful_mapRing : mapRing.IsLawful where
  get_set _ _ _ := Function.update_self ..
  get_set_of_ne _ _ _ _ h := Function.update_of_ne h ..
  get_delete _ _ := Function.update_self ..
  get_delete_of_ne _ _ _ h := Function.update_of_ne h ..
  deleted _ _ := rfl

/-- A seed is set, set again under another id, read and removed. -/
def seedCalls : List SeedCall :=
  [.set (js "k-1") (List.replicate 32 1), .set (js "k-2") (List.replicate 32 2), .get (js "k-1"),
    .delete (js "k-1"), .get (js "k-1"), .delete (js "k-1"), .get (js "k-2")]

theorem map_stores_agree :
    Machine.answers (keychainSeedStore mapRing) (fun _ => none) seedCalls =
      Machine.answers memorySeedStore (fun _ => none) seedCalls :=
  stores_agree isLawful_mapRing (fun _ => rfl) (by
    simp only [seedCalls, List.forall_mem_cons]
    exact ⟨rfl, rfl, trivial, trivial, trivial, trivial, trivial, List.forall_mem_nil _⟩)

/-! ### The signer -/

/-- `Signer`. -/
structure Signer where
  keyId : JsString
  sign : List UInt8 → JsString

/-- `deriveKeypairFromSeed`, which throws on a seed that has not 32 bytes. -/
def seedOfBytes (bytes : List UInt8) : Option Seed :=
  if h : bytes.length = 32 then some ⟨⟨bytes⟩, h⟩ else none

/-- `keychainSigner`, of what the store holds; `none` where it throws. -/
def keychainSigner (host : ConnectHost) (keyId : JsString) (stored : Option (List UInt8)) :
    Option Signer :=
  (stored.bind seedOfBytes).map fun seed =>
    ⟨keyId, fun transcript => toBase64Url (host.sign seed transcript)⟩

theorem seedOfBytes_toList (seed : Seed) : seedOfBytes seed.toList = some seed :=
  dif_pos (by simp)

end HuginAgent
