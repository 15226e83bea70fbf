/-
Where the two verifiers agree.

`protocol/v1/py/hugin_protocol_v1.py` is a port of the contract code for a relay that is not
written in TypeScript, and says that its outcomes are identical.  They are, but for two kinds of
texts.  An origin may have a host that `new URL` rewrites and `urlsplit` only takes apart: a host
that ends in a number without being the address it stands for, or one with a label of IDNA that is
not valid (`originsAgree_iff`).  And `\d` of a Python pattern is any decimal digit, which is seen
in versions alone (`authFields_agree_iff`).
-/
import HuginAgent.Py.Origin

namespace HuginAgent

/-! ### Origins -/

/-- Both validators return the text, or both refuse it. -/
def OriginsAgree (idna : Idna) (lib : PyLibrary) (s : PyString) : Prop :=
  canonicalizeServerOrigin idna (units s) = some (units s) ∧
      Py.canonicalizeServerOrigin lib s = some s ∨
    canonicalizeServerOrigin idna (units s) = none ∧ Py.canonicalizeServerOrigin lib s = none

/-- A host that the URL parser does not leave as it is: with a label that begins with `xn--` and
that IDNA does not keep, or with a number at its end and not written as an address. -/
def IsRewritten (idna : Idna) (host : JsString) : Prop :=
  (∃ label ∈ labelsOf host, isAceLabel label = true) ∧ idna.domainToAscii host ≠ some host ∨
    endsInNumber host = true ∧ ¬ IsQuad host

theorem hostParser_origin_iff {idna : Idna} {o : ServerOrigin} (hlower : toLowerCase o.host = o.host) :
    hostParser idna o.host = some o.host ↔ ¬ IsRewritten idna o.host := by
  rcases o.hostOk.cases with h | ⟨hne, h⟩
  · rw [h]
    refine iff_of_true (hostParser_loopback6 idna) ?_
    rintro (⟨hace, -⟩ | ⟨hends, -⟩)
    · revert hace
      decide
    · exact absurd hends (by decide)
  · have hunits : ∀ u ∈ o.host, isForbiddenInDomain u = false := fun u hu =>
      forall_isNameUnit (p := fun u => isForbiddenInDomain u = false) (by decide) (h u hu)
    rw [hostParser_fixed_iff hne (fun u hu => isAscii_of_isNameUnit (h u hu)) hunits hlower,
      IsRewritten, not_or, not_and, not_and, not_not, not_not]

/-- A host that the parser leaves as it is is in lower case. -/
theorem lower_of_hostParser {idna : Idna} {o : ServerOrigin}
    (h : hostParser idna o.host = some o.host) : toLowerCase o.host = o.host := by
  rcases o.hostOk.cases with hsix | ⟨-, hname⟩
  · rw [hsix]
    decide
  · refine hostParser_lower ?_ h
    exact fun hhead => absurd (hname _ (List.mem_of_mem_head? hhead)) (by decide)

/-- The host of an origin is told by its text, up to its case. -/
theorem lower_host_of_text (lib : PyLibrary) {o o' : ServerOrigin} (h : o.text = o'.text) :
    toLowerCase o.host = toLowerCase o'.host := by
  have hsplit : Py.originSplit o = Py.originSplit o' := by
    have ho := Py.urlsplit_text lib o
    rw [h, Py.urlsplit_text lib o'] at ho
    exact (Option.some.inj ho).symm
  refine ofUnits_injective ?_
  rw [← @Py.displayHost_hostname lib o, ← @Py.displayHost_hostname lib o', hsplit]

/-- **The two validators differ in the origins whose host is rewritten.** -/
theorem originsAgree_iff (idna : Idna) (lib : PyLibrary) (s : PyString) :
    OriginsAgree idna lib s ↔
      ∀ o : ServerOrigin, units s = o.text → toLowerCase o.host = o.host →
        ¬ IsRewritten idna o.host := by
  have hunits : ∀ {o : ServerOrigin}, units s = o.text ↔ s = ofUnits o.text := by
    intro o
    constructor
    · intro h
      rw [← h]
      exact eq_ofUnits_of_units (h ▸ o.isAsciiText)
    · rintro rfl
      exact units_ofUnits _
  constructor
  · intro hagree o ho hlower
    have hpy : Py.canonicalizeServerOrigin lib s = some s :=
      Py.canonicalizeServerOrigin_eq_some_iff.mpr ⟨rfl, o, hunits.mp ho, hlower⟩
    rcases hagree with ⟨hts, -⟩ | ⟨-, hnone⟩
    · obtain ⟨-, o', ho', hparsed⟩ := canonicalizeServerOrigin_eq_some_iff.mp hts
      have hlower' := lower_of_hostParser hparsed
      have hhost : o.host = o'.host := by
        rw [← hlower, ← hlower']
        exact lower_host_of_text lib (ho.symm.trans ho')
      rw [hhost]
      exact (hostParser_origin_iff hlower').mp hparsed
    · rw [hpy] at hnone
      exact nomatch hnone
  · intro h
    by_cases hpy : ∃ o : ServerOrigin, units s = o.text ∧ toLowerCase o.host = o.host
    · obtain ⟨o, ho, hlower⟩ := hpy
      have hparsed := (hostParser_origin_iff hlower).mpr (h o ho hlower)
      exact Or.inl ⟨canonicalizeServerOrigin_eq_some_iff.mpr ⟨rfl, o, ho, hparsed⟩,
        Py.canonicalizeServerOrigin_eq_some_iff.mpr ⟨rfl, o, hunits.mp ho, hlower⟩⟩
    · -- what the one accepts the other would accept, so both refuse
      refine Or.inr ⟨Option.eq_none_iff_forall_ne_some.mpr fun result hts => hpy ?_,
        Option.eq_none_iff_forall_ne_some.mpr fun result hts => hpy ?_⟩
      · obtain ⟨-, o, ho, hparsed⟩ := canonicalizeServerOrigin_eq_some_iff.mp hts
        exact ⟨o, ho, lower_of_hostParser hparsed⟩
      · obtain ⟨-, o, ho, hlower⟩ := Py.canonicalizeServerOrigin_eq_some_iff.mp hts
        exact ⟨o, hunits.mpr ho, hlower⟩

/-- Domain to ASCII without the tables: an ASCII domain without a label of IDNA, in lower case. -/
def plainIdna : Idna where
  domainToAscii domain :=
    if domain.all isAscii && (labelsOf domain).all fun label => !isAceLabel label then
      some (toLowerCase domain)
    else none
  isAscii_of_eq := by
    intro domain result h
    obtain ⟨hdomain, h⟩ := Option.ite_none_right_eq_some.mp h
    obtain rfl := Option.some.inj h
    rw [Bool.and_eq_true, List.all_eq_true] at hdomain
    refine List.forall_mem_map.mpr fun u hu => ?_
    have hascii := isAscii_iff.mp (hdomain.1 u hu)
    split
    · rename_i hupper
      simp only [Bool.and_eq_true, decide_eq_true_eq, UInt16.le_iff_toNat_le] at hupper
      have h90 : (90 : UInt16).toNat = 90 := rfl
      have h32 : (32 : UInt16).toNat = 32 := rfl
      rw [isAscii_iff, UInt16.toNat_add]
      omega
    · exact hdomain.1 u hu
  lower_of_eq := by
    intro domain result h
    obtain ⟨-, h⟩ := Option.ite_none_right_eq_some.mp h
    obtain rfl := Option.some.inj h
    exact toLowerCase_toLowerCase domain
  lower := by
    intro domain _ hascii hlabels
    refine if_pos ?_
    rw [Bool.and_eq_true, List.all_eq_true, List.all_eq_true]
    refine ⟨hascii, fun label hlabel => ?_⟩
    rw [hlabels label hlabel]
    rfl

theorem not_arabic_of_ascii {u : UInt16} (hu : isAscii u = true) :
    (decide (0x660 ≤ (ofUnit u).val)) = false := by
  have hlt : (ofUnit u).val < 128 := isAscii_iff.mp hu
  exact decide_eq_false (by omega)

theorem isScalar_of_arabic {p : CodePoint}
    (hp : (inClass isDigit p || (0x660 ≤ p.val && p.val ≤ 0x669)) = true) :
    isSurrogate p = false := by
  have hsmall : p.val < 0xD800 := by
    simp only [inClass, Bool.or_eq_true, Bool.and_eq_true, decide_eq_true_eq] at hp
    omega
  rw [isSurrogate, Bool.and_eq_false_iff, decide_eq_false_iff_not]
  exact Or.inl (by omega)

/-- Python with the decimal digits of ASCII and of Arabic. -/
def arabicLibrary : PyLibrary where
  isDecimal p := inClass isDigit p || (0x660 ≤ p.val && p.val ≤ 0x669)
  lower s := s.flatMap fun p => if p.val < 128 then ofUnits (toLowerCase [p.val.toUInt16]) else [p]
  isDecimal_ascii := by
    intro u hu
    rw [inClass_ofUnit hu, not_arabic_of_ascii hu, Bool.false_and, Bool.or_false]
  isDecimal_scalar := isScalar_of_arabic
  lower_ascii := by
    intro t ht
    induction t with
    | nil => rfl
    | cons u t ih =>
        obtain ⟨hu, ht⟩ := List.forall_mem_cons.mp ht
        have hlt : (ofUnit u).val < 128 := isAscii_iff.mp hu
        have hval : (ofUnit u).val.toUInt16 = u := UInt16.ofNat_toNat
        rw [ofUnits, List.map_cons, List.flatMap_cons, if_pos hlt, hval]
        exact congrArg (ofUnits (toLowerCase [u]) ++ ·) (ih ht)
  checkBrackets := fun _ => true
  checkNetloc := fun _ => true
  checkBrackets_loopback := fun _ => rfl
  checkNetloc_ascii := fun _ => rfl

/-- The host is read as `1.2.0.3` by the one, and left alone by the other. -/
theorem origin_accepted_once : ¬ OriginsAgree plainIdna arabicLibrary (py "wss://1.2.3") := by
  unfold OriginsAgree
  decide +kernel

/-! ### Auth fields -/

/-- What the two sides should make of one text. -/
structure FieldsAgree (lib : PyLibrary) (s : PyString) : Prop where
  authId : isAuthId (units s) = Py.validateAuthId s
  semVer : isSemVer (units s) = Py.validateProtocolVersion lib s
  tenantId : validateTenantId (units s) = Py.validateTenantId s
  nonce : isChallengeNonce (units s) = (Py.decodeNonce s).isSome
  nonceRaw : ∀ raw ∈ Py.decodeNonce s, fromBase64Url (units s) = raw ∧ raw.length = 32
  b64u32 : validateB64u32 (units s) = Py.validateB64u32 s

/-- A version with a digit that is not ASCII. -/
def IsForeignVersion (lib : PyLibrary) (s : PyString) : Prop :=
  s.length ≤ 64 ∧ ∃ a b c tail,
    Grammar.Digits lib.isDecimal a ∧ Grammar.Digits lib.isDecimal b ∧
    Grammar.Digits lib.isDecimal c ∧ Grammar.isTail Py.isPrePoint (point '-') tail = true ∧
    s = a ++ point '.' :: (b ++ point '.' :: (c ++ tail)) ∧ PyString.isAscii (a ++ b ++ c) = false

/-- Two grammars that let ASCII through alone agree when they agree on ASCII. -/
theorem eq_of_ascii {p : PyString → Bool} {q : JsString → Bool} {s : PyString}
    (hp : p s = true → PyString.isAscii s = true) (hq : q (units s) = true → IsAsciiText (units s))
    (h : ∀ t, IsAsciiText t → p (ofUnits t) = q t) : q (units s) = p s := by
  cases hs : PyString.isAscii s with
  | true =>
      obtain ⟨t, ht, rfl⟩ := exists_units_of_isAscii hs
      rw [units_ofUnits, h t ht]
  | false =>
      have hpy : p s = false := Bool.eq_false_iff.mpr fun h => by
        rw [hp h] at hs
        exact Bool.false_ne_true hs.symm
      have hts : q (units s) = false := Bool.eq_false_iff.mpr fun h => by
        rw [eq_ofUnits_of_units (hq h), isAscii_ofUnits (hq h)] at hs
        exact Bool.false_ne_true hs.symm
      rw [hpy, hts]

theorem matchesIdRe_eq (s : PyString) : isAuthId (units s) = Py.matchesIdRe s := by
  refine eq_of_ascii ?_ isAsciiText_of_isAuthId ?_
  · intro h
    rw [Py.matchesIdRe, Bool.and_eq_true] at h
    exact isAscii_of_inClass h.2
  · intro t ht
    rw [Py.matchesIdRe, isAuthId, all_inClass ht, ofUnits, List.length_map]

theorem matchesNonceRe_eq (s : PyString) : isBase64Url 43 (units s) = Py.matchesNonceRe s := by
  refine eq_of_ascii ?_ isAsciiText_of_isBase64Url ?_
  · intro h
    rw [Py.matchesNonceRe, Bool.and_eq_true] at h
    exact isAscii_of_inClass h.2
  · intro t ht
    rw [Py.matchesNonceRe, isBase64Url, all_inClass ht, ofUnits, List.length_map]

/-- Digits of base64url are written again as they were on the one side if they are on the other. -/
theorem b64u_eq_iff {s : PyString} (h : Py.matchesNonceRe s = true) (raw : List UInt8) :
    Py.b64u raw = s ↔ toBase64Url raw = units s := by
  rw [← matchesNonceRe_eq] at h
  have hs := eq_ofUnits_of_units (isAsciiText_of_isBase64Url h)
  constructor
  · intro heq
    rw [← heq, Py.b64u, units_ofUnits]
  · intro heq
    rw [Py.b64u, heq]
    exact hs.symm

theorem decodeNonce_eq (s : PyString) :
    Py.decodeNonce s = if isChallengeNonce (units s) then some (fromBase64Url (units s)) else none := by
  rw [isChallengeNonce, isCanonical32, matchesNonceRe_eq, Py.decodeNonce]
  cases hre : Py.matchesNonceRe s with
  | false => rfl
  | true =>
      have hlength : (fromBase64Url (units s)).length = 32 :=
        length_fromBase64Url ((matchesNonceRe_eq s).trans hre)
      have hcanonical := b64u_eq_iff hre (fromBase64Url (units s))
      simp only [Py.urlsafeB64decode, hlength, hcanonical, if_true, ne_eq, not_true_eq_false, if_false,
        ite_not, Bool.true_and, decide_eq_true_eq]

theorem validateB64u32_py (s : PyString) : validateB64u32 (units s) = Py.validateB64u32 s := by
  rw [validateB64u32, Py.validateB64u32, matchesNonceRe_eq]
  cases hre : Py.matchesNonceRe s with
  | false => rfl
  | true =>
      have hcanonical : decide (Py.b64u (fromBase64Url (units s)) = s) =
          decide (toBase64Url (fromBase64Url (units s)) = units s) :=
        decide_eq_decide.mpr (b64u_eq_iff hre (fromBase64Url (units s)))
      rw [Py.urlsafeB64decode, hcanonical]

theorem validateProtocolVersion_ofUnits (lib : PyLibrary) {t : JsString} (ht : IsAsciiText t) :
    Py.validateProtocolVersion lib (ofUnits t) = isSemVer t := by
  have hdecimal : ∀ {u : UInt16}, u ∈ t → lib.isDecimal (ofUnit u) = isDigit u :=
    fun hu => lib.isDecimal_ascii (ht _ hu)
  have hpre : ∀ {u : UInt16}, u ∈ t → Py.isPrePoint (ofUnit u) = isPreUnit u :=
    fun hu => inClass_ofUnit (ht _ hu)
  have hdot : lib.isDecimal (ofUnit (unit '.')) = false :=
    (lib.isDecimal_ascii (by decide)).trans (by decide)
  have hhyphen : lib.isDecimal (ofUnit (unit '-')) = false :=
    (lib.isDecimal_ascii (by decide)).trans (by decide)
  have hversion : Grammar.isVersion lib.isDecimal Py.isPrePoint (point '.') (point '-') (ofUnits t) =
      Grammar.isVersion isDigit isPreUnit (unit '.') (unit '-') t := by
    refine Bool.eq_iff_iff.mpr ⟨fun h => ?_, fun h => ?_⟩
    · have hback : ∀ u : UInt16, (ofUnit u).val.toUInt16 = u := fun u => UInt16.ofNat_toNat
      have hmap : (ofUnits t).map (fun p => p.val.toUInt16) = t := by
        rw [ofUnits, List.map_map]
        exact (List.map_congr_left fun u _ => hback u).trans (List.map_id t)
      rw [← hmap]
      refine Grammar.isVersion_map isDigit isPreUnit (fun p : CodePoint => p.val.toUInt16) hdot hhyphen
        (by decide) (by decide) ?_ ?_ h
      · refine List.forall_mem_map.mpr fun u hu hdigit => ?_
        rw [hdecimal hu] at hdigit
        exact (congrArg isDigit (hback u)).trans hdigit
      · refine List.forall_mem_map.mpr fun u hu hunit => ?_
        rw [hpre hu] at hunit
        exact (congrArg isPreUnit (hback u)).trans hunit
    · exact Grammar.isVersion_map lib.isDecimal Py.isPrePoint ofUnit (by decide) (by decide) hdot hhyphen
        (fun u hu hdigit => (hdecimal hu).trans hdigit) (fun u hu hunit => (hpre hu).trans hunit) h
  rw [Py.validateProtocolVersion, isSemVer_eq, hversion, ofUnits, List.length_map]

theorem validateProtocolVersion_iff (lib : PyLibrary) (s : PyString) :
    Py.validateProtocolVersion lib s = true ↔ s.length ≤ 64 ∧ ∃ a b c tail,
      Grammar.Digits lib.isDecimal a ∧ Grammar.Digits lib.isDecimal b ∧
      Grammar.Digits lib.isDecimal c ∧ Grammar.isTail Py.isPrePoint (point '-') tail = true ∧
      s = a ++ point '.' :: (b ++ point '.' :: (c ++ tail)) := by
  have hdot : lib.isDecimal (point '.') = false :=
    (lib.isDecimal_ascii (u := unit '.') (by decide)).trans (by decide)
  have hhyphen : lib.isDecimal (point '-') = false :=
    (lib.isDecimal_ascii (u := unit '-') (by decide)).trans (by decide)
  rw [Py.validateProtocolVersion, Bool.and_eq_true, decide_eq_true_eq,
    Grammar.isVersion_iff hdot hhyphen]

/-- A version that is no foreign one is ASCII. -/
theorem isAscii_of_version {lib : PyLibrary} {s : PyString}
    (h : Py.validateProtocolVersion lib s = true) (hforeign : ¬ IsForeignVersion lib s) :
    PyString.isAscii s = true := by
  obtain ⟨hlength, a, b, c, tail, ha, hb, hc, htail, rfl⟩ := (validateProtocolVersion_iff lib s).mp h
  have hdigits : PyString.isAscii (a ++ b ++ c) = true := by
    by_contra hnot
    exact hforeign ⟨hlength, a, b, c, tail, ha, hb, hc, htail, rfl, Bool.eq_false_iff.mpr hnot⟩
  have htailAscii : PyString.isAscii tail = true := by
    cases tail with
    | nil => rfl
    | cons p tail =>
        simp only [Grammar.isTail, Bool.and_eq_true, decide_eq_true_eq] at htail
        have hhyphen : decide ((point '-').val < 128) = true := by decide
        rw [htail.1.1]
        exact Bool.and_eq_true_iff.mpr ⟨hhyphen, isAscii_of_inClass htail.2⟩
  have hdot : decide ((point '.').val < 128) = true := by decide
  simp only [PyString.isAscii, List.all_append, List.all_cons, Bool.and_eq_true] at hdigits htailAscii ⊢
  exact ⟨hdigits.1.1, hdot, hdigits.1.2, hdot, hdigits.2, htailAscii⟩

/-- **Versions agree, but for the foreign ones.** -/
theorem semVer_agree_iff (lib : PyLibrary) (s : PyString) :
    isSemVer (units s) = Py.validateProtocolVersion lib s ↔ ¬ IsForeignVersion lib s := by
  constructor
  · rintro hagree ⟨hlength, a, b, c, tail, ha, hb, hc, htail, hs, hforeign⟩
    have hpy : Py.validateProtocolVersion lib s = true :=
      (validateProtocolVersion_iff lib s).mpr ⟨hlength, a, b, c, tail, ha, hb, hc, htail, hs⟩
    have hascii := isAsciiText_of_isSemVer (hagree.trans hpy)
    have hall := isAscii_ofUnits hascii
    rw [← eq_ofUnits_of_units hascii, hs] at hall
    simp only [PyString.isAscii, List.all_append, List.all_cons, Bool.and_eq_true] at hall
    simp only [PyString.isAscii, List.all_append, hall.1, hall.2.2.1, hall.2.2.2.2.1] at hforeign
    exact absurd hforeign (by decide)
  · intro hforeign
    exact eq_of_ascii (fun h => isAscii_of_version h hforeign) isAsciiText_of_isSemVer
      fun t ht => validateProtocolVersion_ofUnits lib ht

theorem fieldsAgree_iff (lib : PyLibrary) (s : PyString) :
    FieldsAgree lib s ↔ ¬ IsForeignVersion lib s := by
  constructor
  · intro h
    exact (semVer_agree_iff lib s).mp h.semVer
  · intro h
    have hdecode := decodeNonce_eq s
    refine ⟨matchesIdRe_eq s, (semVer_agree_iff lib s).mpr h, matchesIdRe_eq s, ?_, ?_,
      validateB64u32_py s⟩
    · rw [hdecode]
      cases isChallengeNonce (units s) <;> rfl
    · intro raw hraw
      rw [hdecode] at hraw
      obtain ⟨hnonce, hraw⟩ := Option.ite_none_right_eq_some.mp hraw
      obtain rfl := Option.some.inj hraw
      exact ⟨rfl, length_of_isChallengeNonce hnonce⟩

/-! ### Transcripts -/

/-- The fields of a handshake, as the Python side has them. -/
structure PyTranscriptFields where
  challengeId : PyString
  nonceRaw : List UInt8
  agentId : PyString
  keyId : PyString
  protocolVersion : PyString
  tenantId : PyString
  serverOrigin : PyString

namespace PyTranscriptFields

structure Accepted (lib : PyLibrary) (f : PyTranscriptFields) : Prop where
  challengeId : Py.validateAuthId f.challengeId = true
  nonceRaw : ∃ nonce, Py.decodeNonce nonce = some f.nonceRaw
  agentId : Py.validateAuthId f.agentId = true
  keyId : Py.validateAuthId f.keyId = true
  protocolVersion : Py.validateProtocolVersion lib f.protocolVersion = true
  tenantId : Py.validateTenantId f.tenantId = true
  serverOrigin : Py.canonicalizeServerOrigin lib f.serverOrigin = some f.serverOrigin

/-- The same fields in TypeScript. -/
def toTs (f : PyTranscriptFields) : TranscriptFields where
  challengeId := units f.challengeId
  nonceRaw := f.nonceRaw
  agentId := units f.agentId
  keyId := units f.keyId
  protocolVersion := units f.protocolVersion
  tenantId := units f.tenantId
  serverOrigin := units f.serverOrigin

def transcript (f : PyTranscriptFields) : Option (List UInt8) :=
  Py.buildTranscript f.challengeId f.nonceRaw f.agentId f.keyId f.protocolVersion f.tenantId
    f.serverOrigin

end PyTranscriptFields

/-- The fields of a pairing. -/
structure PyPairingFields where
  secret : PyString
  publicRaw : List UInt8
  serverOrigin : PyString
  protocolVersion : PyString

namespace PyPairingFields

structure Accepted (lib : PyLibrary) (f : PyPairingFields) : Prop where
  secret : Py.validateB64u32 f.secret = true
  publicRaw : f.publicRaw.length = 32
  serverOrigin : Py.canonicalizeServerOrigin lib f.serverOrigin = some f.serverOrigin
  protocolVersion : Py.validateProtocolVersion lib f.protocolVersion = true

def toTs (f : PyPairingFields) : PairingTranscriptFields where
  secret := units f.secret
  publicRaw := f.publicRaw
  serverOrigin := units f.serverOrigin
  protocolVersion := units f.protocolVersion

def transcript (f : PyPairingFields) : Option (List UInt8) :=
  Py.buildPairingTranscript f.secret f.publicRaw f.serverOrigin f.protocolVersion

end PyPairingFields

/-- Accepted fields are signed as the same bytes on both sides. -/
structure TranscriptsAgree (lib : PyLibrary) : Prop where
  handshake : ∀ f : PyTranscriptFields, f.Accepted lib → buildTranscript f.toTs = f.transcript
  pairing : ∀ f : PyPairingFields, f.Accepted lib → buildPairingTranscript f.toTs = f.transcript

theorem lp_units {s : PyString} (h : ∀ p ∈ s, isSurrogate p = false) : lp (units s) = Py.lp s := by
  rw [Py.lp, encodeUtf8_eq h]
  rfl

theorem lp_literal {s : String} (h : ∀ u ∈ js s, isAscii u = true) : lp (js s) = Py.lp (py s) := by
  have hlp := lp_units (isSurrogate_ofUnits h)
  rw [units_ofUnits] at hlp
  exact hlp

theorem isSurrogate_of_isAscii {s : PyString} (h : PyString.isAscii s = true) :
    ∀ p ∈ s, isSurrogate p = false := by
  obtain ⟨t, ht, rfl⟩ := exists_units_of_isAscii h
  exact isSurrogate_ofUnits ht

theorem isSurrogate_of_idRe {s : PyString} (h : Py.matchesIdRe s = true) :
    ∀ p ∈ s, isSurrogate p = false := by
  rw [Py.matchesIdRe, Bool.and_eq_true] at h
  exact isSurrogate_of_isAscii (isAscii_of_inClass h.2)

/-- The digits of a foreign version are no surrogates either. -/
theorem isSurrogate_of_version {lib : PyLibrary} {s : PyString}
    (h : Py.validateProtocolVersion lib s = true) : ∀ p ∈ s, isSurrogate p = false := by
  by_cases hforeign : IsForeignVersion lib s
  · obtain ⟨-, a, b, c, tail, ha, hb, hc, htail, rfl, -⟩ := hforeign
    have htailClear : ∀ p ∈ tail, isSurrogate p = false := by
      cases tail with
      | nil => exact nofun
      | cons p tail =>
          simp only [Grammar.isTail, Bool.and_eq_true, decide_eq_true_eq] at htail
          rw [htail.1.1]
          exact List.forall_mem_cons.mpr
            ⟨by decide, isSurrogate_of_isAscii (isAscii_of_inClass htail.2)⟩
    simp only [List.forall_mem_append, List.forall_mem_cons]
    exact ⟨fun p hp => lib.isDecimal_scalar (ha.2 p hp), by decide,
      fun p hp => lib.isDecimal_scalar (hb.2 p hp), by decide,
      fun p hp => lib.isDecimal_scalar (hc.2 p hp), htailClear⟩
  · exact isSurrogate_of_isAscii (isAscii_of_version h hforeign)

theorem isSurrogate_of_origin {lib : PyLibrary} {s : PyString}
    (h : Py.canonicalizeServerOrigin lib s = some s) : ∀ p ∈ s, isSurrogate p = false := by
  obtain ⟨-, o, rfl, -⟩ := Py.canonicalizeServerOrigin_eq_some_iff.mp h
  exact isSurrogate_ofUnits o.isAsciiText

theorem transcriptsAgree (lib : PyLibrary) : TranscriptsAgree lib := by
  refine ⟨?_, ?_⟩
  · intro f hf
    obtain ⟨nonce, hnonce⟩ := hf.nonceRaw
    have hlength : f.nonceRaw.length = 32 := by
      rw [decodeNonce_eq] at hnonce
      obtain ⟨hcanonical, hraw⟩ := Option.ite_none_right_eq_some.mp hnonce
      rw [← Option.some.inj hraw]
      exact length_of_isChallengeNonce hcanonical
    have hchallenge := lp_units (isSurrogate_of_idRe hf.challengeId)
    have hagent := lp_units (isSurrogate_of_idRe hf.agentId)
    have hkey := lp_units (isSurrogate_of_idRe hf.keyId)
    have hversion := lp_units (isSurrogate_of_version hf.protocolVersion)
    have htenant := lp_units (isSurrogate_of_idRe hf.tenantId)
    have horigin := lp_units (isSurrogate_of_origin hf.serverOrigin)
    have htag : lp domainTag = Py.lp (py "hugin-agent/auth/v1") := lp_literal (by decide)
    have halg : lp authAlg = Py.lp (py "ed25519") := lp_literal (by decide)
    rw [PyTranscriptFields.transcript, Py.buildTranscript, if_neg (not_not.mpr hlength), ← htag,
      ← halg, ← hchallenge, ← hagent, ← hkey, ← hversion, ← htenant, ← horigin]
    rfl
  · intro f hf
    have hsecretTs : validateB64u32 (units f.secret) = true :=
      (validateB64u32_py f.secret).trans hf.secret
    have hsecretAscii : PyString.isAscii f.secret = true := by
      have hre := hf.secret
      rw [Py.validateB64u32, Py.matchesNonceRe, Bool.and_eq_true, Bool.and_eq_true,
        Bool.and_eq_true] at hre
      exact isAscii_of_inClass hre.1.1.2
    have hsecret := lp_units (isSurrogate_of_isAscii hsecretAscii)
    have horigin := lp_units (isSurrogate_of_origin hf.serverOrigin)
    have hversion := lp_units (isSurrogate_of_version hf.protocolVersion)
    have htag : lp pairingDomainTag = Py.lp (py "hugin-pair-pop-v1") := lp_literal (by decide)
    have hnotFalse : ¬ Py.validateB64u32 f.secret = false := by
      rw [hf.secret]
      exact Bool.noConfusion
    rw [PyPairingFields.transcript, Py.buildPairingTranscript, if_neg hnotFalse,
      if_neg (not_not.mpr hf.publicRaw), ← htag, ← hsecret, ← horigin, ← hversion]
    exact (if_pos hsecretTs).trans (if_pos hf.publicRaw)

/-- **The grammars agree on all but foreign versions, and the transcripts always do.** -/
theorem authFields_agree_iff (lib : PyLibrary) :
    (∀ s : PyString, FieldsAgree lib s ↔ ¬ IsForeignVersion lib s) ∧ TranscriptsAgree lib :=
  ⟨fieldsAgree_iff lib, transcriptsAgree lib⟩

/-- The version 1.0.0 with an Arabic one. -/
def arabicVersion : PyString := ⟨0x661, by decide⟩ :: py ".0.0"

/-- Python takes it for a version. -/
theorem version_accepted_once : ¬ FieldsAgree arabicLibrary arabicVersion := by
  intro h
  exact absurd h.semVer (by decide +kernel)

end HuginAgent
