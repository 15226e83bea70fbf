/-
Auth identifier validators, `protocol/v1/origin.ts`.

An origin is accepted when `new URL` reads it and writes the same text again, and when what it
reads is a scheme, a host and a port that the relay may have.  So the accepted texts are the
`ServerOrigin`s whose host the URL parser leaves as it is (`canonicalizeServerOrigin_eq_some_iff`):
what `new URL` makes of any other text plays no part.
-/
import HuginAgent.Js.Url

namespace HuginAgent

/-! ### Hosts -/

/-- `/^\d{1,3}$/`. -/
def isOctetText (s : JsString) : Bool := 1 ≤ s.length && s.length ≤ 3 && s.all isDigit

/-- `/^\d{1,3}(?:\.\d{1,3}){3}$/`. -/
def isIpv4Text (host : JsString) : Bool :=
  (labelsOf host).length = 4 && (labelsOf host).all isOctetText

/-- `/^127(?:\.\d{1,3}){3}$/`. -/
def isLoopbackV4 (host : JsString) : Bool :=
  isIpv4Text host && (labelsOf host).head? = some (js "127")

def isLabelUnit (u : UInt16) : Bool := isAlnum u || u = unit '-'

/-- `dnsLabel`: `/^[A-Za-z0-9](?:[A-Za-z0-9-]{0,61}[A-Za-z0-9])?$/`. -/
def isDnsLabel (s : JsString) : Bool :=
  s.length ≤ 63 && s.all isLabelUnit && s.head?.any isAlnum && s.getLast?.any isAlnum

def isLoopback (host : JsString) : Bool :=
  host = js "localhost" || host = js "[::1]" || isLoopbackV4 host

/-! ### Origins -/

/-- The checks on what `new URL` has read, in the order of the source. -/
def canonicalizeUrl (url : Url) (input : JsString) : Option JsString :=
  let host := url.hostname
  if url.protocol ≠ js "wss:" ∧ url.protocol ≠ js "ws:" then none
  else if url.protocol = js "ws:" ∧ isLoopback host = false then none
  else if url.username ≠ [] ∨ url.password ≠ [] then none
  else if url.search ≠ [] ∨ url.hash ≠ [] then none
  else if url.pathname ≠ [] ∧ url.pathname ≠ js "/" then none
  else if url.port = js "0" then none
  else if host.getLast? = some (unit '.') then none
  else if host.contains (unit '%') then none
  else if (host.head? = some (unit '[') ∨ isIpv4Text host = true) ∧ isLoopback host = false then none
  else if isLoopback host = false ∧ (labelsOf host).all isDnsLabel = false then none
  else
    let portPart := if url.port = [] then [] else unit ':' :: url.port
    let canonical := url.protocol ++ js "//" ++ host ++ portPart
    if canonical = input then some canonical else none

def canonicalizeServerOrigin (idna : Idna) (input : JsString) : Option JsString :=
  match newUrl idna input with
  | .failure => none
  | .otherScheme => none
  | .url url => canonicalizeUrl url input

/-- `validateTenantId`, `/^[A-Za-z0-9._-]{1,128}$/`. -/
def validateTenantId (t : JsString) : Bool :=
  1 ≤ t.length && t.length ≤ 128 &&
    t.all fun u => isAlnum u || u = unit '.' || u = unit '_' || u = unit '-'

/-! ### The origins there are -/

/-- `wss` or `ws`. -/
def schemeText (secure : Bool) : JsString := if secure then js "wss" else js "ws"

/-- A host that may stand in an origin of the scheme. -/
structure IsOriginHost (secure : Bool) (host : JsString) : Prop where
  /-- Without loopback there is only `wss`, and only a name. -/
  named : isLoopback host = false →
    secure = true ∧ isIpv4Text host = false ∧ (labelsOf host).all isDnsLabel = true

/-- A port that is written. -/
def IsOriginPort (secure : Bool) (port : Nat) : Prop :=
  0 < port ∧ port ≤ 65535 ∧ port ≠ defaultPort (schemeText secure)

/-- What an accepted origin tells. -/
structure ServerOrigin where
  secure : Bool
  host : JsString
  port : Option Nat
  hostOk : IsOriginHost secure host
  portOk : ∀ n ∈ port, IsOriginPort secure n

def ServerOrigin.text (o : ServerOrigin) : JsString := originText (schemeText o.secure) o.host o.port

/-- `[A-Za-z0-9.-]`. -/
def isNameUnit (u : UInt16) : Bool := isAlnum u || u = unit '-' || u = unit '.'

theorem isNameUnit_of_labels {host : JsString}
    (h : ∀ label ∈ labelsOf host, ∀ u ∈ label, isLabelUnit u = true) :
    ∀ u ∈ host, isNameUnit u = true := by
  intro u hu
  rcases (mem_splitAll host u).mp hu with ⟨label, hlabel, hmem⟩ | ⟨hsep, -⟩
  · rw [isNameUnit, ← isLabelUnit, h label hlabel u hmem]
    rfl
  · rw [hsep]
    decide

theorem isNameUnit_of_ipv4 {host : JsString} (h : isIpv4Text host = true) :
    ∀ u ∈ host, isNameUnit u = true := by
  simp only [isIpv4Text, isOctetText, Bool.and_eq_true, List.all_eq_true] at h
  refine isNameUnit_of_labels fun label hlabel u hu => ?_
  rw [isLabelUnit, isAlnum, (h.2 label hlabel).2 u hu]
  rfl

theorem isNameUnit_of_dns {host : JsString} (h : (labelsOf host).all isDnsLabel = true) :
    ∀ u ∈ host, isNameUnit u = true := by
  simp only [isDnsLabel, Bool.and_eq_true, List.all_eq_true] at h
  exact isNameUnit_of_labels fun label hlabel u hu => (h label hlabel).1.1.2 u hu

theorem ne_nil_of_labels {host : JsString} (h : labelsOf host ≠ [[]]) : host ≠ [] := by
  rintro rfl
  exact h rfl

/-- The host of an origin is the address of the loopback in IPv6, or a name. -/
theorem IsOriginHost.cases {secure : Bool} {host : JsString} (h : IsOriginHost secure host) :
    host = js "[::1]" ∨ host ≠ [] ∧ ∀ u ∈ host, isNameUnit u = true := by
  cases hloop : isLoopback host with
  | false =>
      obtain ⟨-, -, hdns⟩ := h.named hloop
      refine Or.inr ⟨ne_nil_of_labels ?_, isNameUnit_of_dns hdns⟩
      intro hlabels
      rw [hlabels] at hdns
      exact absurd hdns (by decide)
  | true =>
      simp only [isLoopback, Bool.or_eq_true, decide_eq_true_eq] at hloop
      rcases hloop with (hlocal | hsix) | hfour
      · rw [hlocal]
        exact Or.inr ⟨by decide, by decide⟩
      · exact Or.inl hsix
      · rw [isLoopbackV4, Bool.and_eq_true] at hfour
        refine Or.inr ⟨ne_nil_of_labels ?_, isNameUnit_of_ipv4 hfour.1⟩
        intro hlabels
        rw [isIpv4Text, hlabels] at hfour
        exact absurd hfour.1 (by decide)

theorem isNameUnit_cases {u : UInt16} (h : isNameUnit u = true) :
    u = unit '-' ∨ u = unit '.' ∨ 48 ≤ u.toNat ∧ u.toNat ≤ 57 ∨ 65 ≤ u.toNat ∧ u.toNat ≤ 90 ∨
      97 ≤ u.toNat ∧ u.toNat ≤ 122 := by
  simp only [isNameUnit, isAlnum, isDigit, Bool.or_eq_true, Bool.and_eq_true, decide_eq_true_eq,
    UInt16.le_iff_toNat_le] at h
  rcases h with (((h | h) | h) | h) | h
  · exact Or.inr (Or.inr (Or.inl h))
  · exact Or.inr (Or.inr (Or.inr (Or.inl h)))
  · exact Or.inr (Or.inr (Or.inr (Or.inr h)))
  · exact Or.inl h
  · exact Or.inr (Or.inl h)

/-- What holds of every unit of a name can be decided. -/
theorem forall_isNameUnit {p : UInt16 → Prop}
    (h : ∀ n < 123, isNameUnit n.toUInt16 = true → p n.toUInt16) {u : UInt16}
    (hu : isNameUnit u = true) : p u := by
  have hunit : u.toNat.toUInt16 = u := UInt16.ofNat_toNat
  have hlt : u.toNat < 123 := by
    rcases isNameUnit_cases hu with rfl | rfl | hu | hu | hu
    · decide
    · decide
    · omega
    · omega
    · omega
  rw [← hunit] at hu ⊢
  exact h u.toNat hlt hu

theorem splitPort_name {host : JsString} (h : ∀ u ∈ host, isNameUnit u = true) (rest : JsString) :
    splitPort false (host ++ rest) = (host ++ (splitPort false rest).1, (splitPort false rest).2) := by
  induction host with
  | nil => rfl
  | cons u host ih =>
      have hu : u ≠ unit ':' ∧ u ≠ unit '[' ∧ u ≠ unit ']' :=
        forall_isNameUnit (p := fun u => u ≠ unit ':' ∧ u ≠ unit '[' ∧ u ≠ unit ']') (by decide)
          (h u List.mem_cons_self)
      have hcolon : ¬ (u = unit ':' ∧ false = false) := fun hc => hu.1 hc.1
      rw [List.cons_append, splitPort, if_neg hcolon]
      dsimp only
      rw [if_neg hu.2.1, if_neg hu.2.2, ih fun v hv => h v (List.mem_cons_of_mem _ hv)]
      rfl

theorem IsOriginHost.isHostText {secure : Bool} {host : JsString} (h : IsOriginHost secure host) :
    IsHostText host := by
  rcases h.cases with rfl | ⟨hne, hunits⟩
  · exact ⟨by decide, by decide, fun rest => rfl⟩
  · refine ⟨hne, ?_, splitPort_name hunits⟩
    intro u hu
    exact forall_isNameUnit (p := fun u => 0x20 < u ∧ isAuthorityEnd u = false ∧ u ≠ unit '@')
      (by decide) (hunits u hu)

/-- No host ends with a dot: its last label would be empty. -/
theorem IsOriginHost.getLast?_ne {secure : Bool} {host : JsString} (h : IsOriginHost secure host) :
    host.getLast? ≠ some (unit '.') := by
  intro hdot
  obtain ⟨init, rfl⟩ := List.getLast?_eq_some_iff.mp hdot
  have hempty : [] ∈ labelsOf (init ++ [unit '.']) := by
    rw [labelsOf, splitAll, (splitLines_ended init).2]
    exact List.mem_append_right _ List.mem_cons_self
  cases hloop : isLoopback (init ++ [unit '.']) with
  | false =>
      have hlabel := List.all_eq_true.mp (h.named hloop).2.2 _ hempty
      exact absurd hlabel (by decide)
  | true =>
      simp only [isLoopback, Bool.or_eq_true, decide_eq_true_eq] at hloop
      rcases hloop with (hlocal | hsix) | hfour
      · rw [hlocal] at hdot
        exact absurd hdot (by decide)
      · rw [hsix] at hdot
        exact absurd hdot (by decide)
      · simp only [isLoopbackV4, isIpv4Text, Bool.and_eq_true, List.all_eq_true] at hfour
        exact absurd (hfour.1.2 _ hempty) (by decide)

theorem ServerOrigin.schemeText_cases (o : ServerOrigin) :
    schemeText o.secure = js "wss" ∨ schemeText o.secure = js "ws" := by
  unfold schemeText
  split
  · exact Or.inl rfl
  · exact Or.inr rfl

/-- What `new URL` reads of an origin. -/
theorem ServerOrigin.newUrl_text (idna : Idna) (o : ServerOrigin) :
    newUrl idna o.text =
      match hostParser idna o.host with
      | none => .failure
      | some hostname =>
          .url {
            protocol := schemeText o.secure ++ [unit ':']
            username := []
            password := []
            hostname
            port := (o.port.map digitUnits).getD []
            pathname := [unit '/']
            search := []
            hash := [] } := by
  have hport : urlPort (schemeText o.secure) o.port = (o.port.map digitUnits).getD [] := by
    cases hp : o.port with
    | none => rfl
    | some n => exact if_neg (o.portOk n hp).2.2
  have hread : newUrl idna (originText (schemeText o.secure) o.host o.port) = _ :=
    newUrl_origin o.schemeText_cases o.hostOk.isHostText fun n hn => (o.portOk n hn).2.1
  rw [hport] at hread
  exact hread

/-- The checks let an origin through that is read as what it says. -/
theorem ServerOrigin.canonicalizeUrl_text (o : ServerOrigin) :
    canonicalizeUrl
      { protocol := schemeText o.secure ++ [unit ':']
        username := []
        password := []
        hostname := o.host
        port := (o.port.map digitUnits).getD []
        pathname := [unit '/']
        search := []
        hash := [] } o.text = some o.text := by
  have hscheme : ¬ (schemeText o.secure ++ [unit ':'] ≠ js "wss:" ∧
      schemeText o.secure ++ [unit ':'] ≠ js "ws:") := by
    rcases o.schemeText_cases with h | h <;> rw [h] <;> decide
  have hloop : ¬ (schemeText o.secure ++ [unit ':'] = js "ws:" ∧ isLoopback o.host = false) := by
    rintro ⟨hws, hnot⟩
    rw [schemeText, (o.hostOk.named hnot).1] at hws
    exact absurd hws (by decide)
  have hzero : (o.port.map digitUnits).getD [] ≠ js "0" := by
    cases hp : o.port with
    | none => exact (by decide : ([] : JsString) ≠ js "0")
    | some n =>
        intro h
        have hval : n = 0 := digitUnits_injective (h.trans (by decide : js "0" = digitUnits 0))
        exact absurd (o.portOk n hp).1 (by omega)
  have hname : ∀ u ∈ o.host, u ≠ unit '%' := by
    rcases o.hostOk.cases with h | ⟨-, h⟩
    · rw [h]
      decide
    · exact fun u hu => forall_isNameUnit (p := fun u => u ≠ unit '%') (by decide) (h u hu)
  have hdot : o.host.getLast? ≠ some (unit '.') := o.hostOk.getLast?_ne
  have hpercent : ¬ o.host.contains (unit '%') = true := by
    rw [List.contains_iff_mem]
    exact fun h => hname _ h rfl
  have haddress : ¬ ((o.host.head? = some (unit '[') ∨ isIpv4Text o.host = true) ∧
      isLoopback o.host = false) := by
    rintro ⟨haddress, hnot⟩
    rcases haddress with hsix | hfour
    · rcases o.hostOk.cases with h | ⟨-, h⟩
      · rw [h] at hnot
        exact absurd hnot (by decide)
      · exact absurd (h _ (List.mem_of_mem_head? hsix)) (by decide)
    · rw [(o.hostOk.named hnot).2.1] at hfour
      exact Bool.false_ne_true hfour
  have hdns : ¬ (isLoopback o.host = false ∧ (labelsOf o.host).all isDnsLabel = false) := by
    rintro ⟨hnot, h⟩
    rw [(o.hostOk.named hnot).2.2] at h
    exact Bool.false_ne_true h.symm
  have hport : (if (o.port.map digitUnits).getD [] = [] then []
      else unit ':' :: (o.port.map digitUnits).getD []) = portText o.port := by
    cases o.port with
    | none => rfl
    | some n => exact if_neg (digitUnits_ne_nil n)
  have htext : schemeText o.secure ++ [unit ':'] ++ js "//" ++ o.host ++ portText o.port = o.text := by
    have hcolon : js "://" = unit ':' :: js "//" := by decide
    rw [text, originText, hcolon]
    simp only [List.append_assoc, List.singleton_append]
  unfold canonicalizeUrl
  dsimp only
  rw [if_neg hscheme, if_neg hloop, if_neg (by decide), if_neg (by decide), if_neg (by decide),
    if_neg hzero, if_neg hdot, if_neg hpercent, if_neg haddress, if_neg hdns, hport, htext,
    if_pos rfl]

/-- What the checks let through is an origin, read as what it says. -/
theorem exists_origin_of_canonicalizeUrl {idna : Idna} {input result : JsString} {url : Url}
    (hurl : newUrl idna input = .url url) (h : canonicalizeUrl url input = some result) :
    result = input ∧ ∃ o : ServerOrigin, o.host = url.hostname ∧ input = o.text := by
  obtain ⟨scheme, hscheme, hprotocol, hport⟩ := newUrl_url hurl
  unfold canonicalizeUrl at h
  dsimp only at h
  rw [hprotocol] at h
  obtain ⟨-, h⟩ := Option.ite_none_left_eq_some.mp h
  obtain ⟨hloop, h⟩ := Option.ite_none_left_eq_some.mp h
  obtain ⟨-, h⟩ := Option.ite_none_left_eq_some.mp h
  obtain ⟨-, h⟩ := Option.ite_none_left_eq_some.mp h
  obtain ⟨-, h⟩ := Option.ite_none_left_eq_some.mp h
  obtain ⟨hzero, h⟩ := Option.ite_none_left_eq_some.mp h
  obtain ⟨-, h⟩ := Option.ite_none_left_eq_some.mp h
  obtain ⟨-, h⟩ := Option.ite_none_left_eq_some.mp h
  obtain ⟨haddress, h⟩ := Option.ite_none_left_eq_some.mp h
  obtain ⟨hdns, h⟩ := Option.ite_none_left_eq_some.mp h
  obtain ⟨htext, h⟩ := Option.ite_none_right_eq_some.mp h
  obtain rfl := Option.some.inj h
  refine ⟨htext, ?_⟩
  obtain ⟨secure, hsecure⟩ : ∃ secure, scheme = schemeText secure := by
    rcases hscheme with rfl | rfl
    · exact ⟨true, rfl⟩
    · exact ⟨false, rfl⟩
  have hhost : IsOriginHost secure url.hostname := by
    refine ⟨fun hnot => ⟨?_, ?_, ?_⟩⟩
    · cases secure with
      | true => rfl
      | false =>
          rw [hsecure] at hloop
          exact absurd ⟨by decide, hnot⟩ hloop
    · exact Bool.eq_false_iff.mpr fun hfour => haddress ⟨Or.inr hfour, hnot⟩
    · cases hall : (labelsOf url.hostname).all isDnsLabel with
      | true => rfl
      | false => exact absurd ⟨hnot, hall⟩ hdns
  obtain ⟨port, hportOk, hportText⟩ : ∃ port : Option Nat, (∀ n ∈ port, IsOriginPort secure n) ∧
      (if url.port = [] then [] else unit ':' :: url.port) = portText port := by
    rcases hport with hnil | ⟨n, hle, hdefault, hdigits⟩
    · refine ⟨none, fun _ hn => (nomatch hn), ?_⟩
      rw [if_pos hnil]
      rfl
    · refine ⟨some n, ?_, ?_⟩
      · rintro m hm
        obtain rfl := Option.some.inj hm
        refine ⟨Nat.pos_of_ne_zero ?_, hle, hsecure ▸ hdefault⟩
        rintro rfl
        rw [hdigits] at hzero
        exact hzero (by decide)
      · rw [hdigits, if_neg (digitUnits_ne_nil n)]
        rfl
  refine ⟨⟨secure, url.hostname, port, hhost, hportOk⟩, rfl, ?_⟩
  have hcolon : js "://" = unit ':' :: js "//" := by decide
  rw [← htext, hportText, hsecure, ServerOrigin.text, originText, hcolon]
  simp only [List.append_assoc, List.singleton_append]

/-- **The accepted texts are the origins whose host the URL parser leaves as it is.** -/
theorem canonicalizeServerOrigin_eq_some_iff {idna : Idna} {input result : JsString} :
    canonicalizeServerOrigin idna input = some result ↔
      result = input ∧ ∃ o : ServerOrigin, input = o.text ∧ hostParser idna o.host = some o.host := by
  constructor
  · intro h
    rw [canonicalizeServerOrigin] at h
    split at h
    · exact nomatch h
    · exact nomatch h
    · rename_i url hurl
      obtain ⟨hresult, o, hhost, rfl⟩ := exists_origin_of_canonicalizeUrl hurl h
      refine ⟨hresult, o, rfl, ?_⟩
      rw [o.newUrl_text] at hurl
      split at hurl
      · exact nomatch hurl
      · rename_i hostname hparsed
        obtain rfl := UrlResult.url.inj hurl
        rw [hparsed, hhost]
  · rintro ⟨rfl, o, rfl, hhost⟩
    rw [canonicalizeServerOrigin, o.newUrl_text, hhost]
    exact o.canonicalizeUrl_text

end HuginAgent
