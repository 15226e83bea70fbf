/-
The dev origin policy, `simple-pairing-dev.ts`, against the production one.

The two validators are separate copies over the same `new URL`.  Each is read as one list of
conditions on what `new URL` has read (`canonicalizeUrl_eq_some_iff`,
`canonicalizeDevUrl_eq_some_iff`), of which most are shared; what is left to compare are the
conditions on the scheme and the host.

The dev policy looks at the bytes of an IPv4 address, and the production one does not.  It makes no
difference, since a host that `new URL` has read and that looks like an address is one
(`isQuad_of_isIpv4Text`).
-/
import HuginAgent.Js.Bytes
import HuginAgent.Protocol.Origin

namespace HuginAgent

/-! ### The dev policy -/

def ipv4OctetsValid (host : JsString) : Bool :=
  isIpv4Text host && (labelsOf host).all fun part => digitsValue part ≤ 255

/-- The checks on what `new URL` has read, in the order of the source. -/
def canonicalizeDevUrl (url : Url) (input : JsString) : Option JsString :=
  let scheme := url.protocol
  let host := url.hostname
  if scheme ≠ js "wss:" ∧ scheme ≠ js "ws:" then none
  else if url.username ≠ [] ∨ url.password ≠ [] then none
  else if url.search ≠ [] ∨ url.hash ≠ [] then none
  else if url.pathname ≠ [] ∧ url.pathname ≠ js "/" then none
  else if url.port = js "0" then none
  else if host.getLast? = some (unit '.') then none
  else if host.contains (unit '%') then none
  else if isIpv4Text host = true ∧ ipv4OctetsValid host = false then none
  else if (host.head? ≠ some (unit '[') ∧ isIpv4Text host = false) ∧
      (labelsOf host).all isDnsLabel = false then none
  else
    let portPart := if url.port = [] then [] else unit ':' :: url.port
    let canonical := scheme ++ js "//" ++ host ++ portPart
    if canonical = input then some canonical else none

def canonicalizeDevOrigin (idna : Idna) (input : JsString) : Option JsString :=
  match newUrl idna input with
  | .failure => none
  | .otherScheme => none
  | .url url => canonicalizeDevUrl url input

/-! ### Kinds of hosts -/

/-- A host that is written as an IPv6 address. -/
def IsBracketed (host : JsString) : Prop :=
  ∃ pieces, host = unit '[' :: (ipv6Text pieces ++ [unit ']'])

/-- `localhost`, `[::1]`, or an address of `127.0.0.0/8`. -/
def IsLoopbackHost (host : JsString) : Prop :=
  host = js "localhost" ∨ host = js "[::1]" ∨
    ∃ b c d, b < 256 ∧ c < 256 ∧ d < 256 ∧ host = quadText 127 b c d

/-- What the dev policy lets through beyond production: `ws` to a host that is not loopback, and a
literal address that is not loopback. -/
def DevOnly (url : Url) : Prop :=
  (url.protocol = js "ws:" ∧ ¬ IsLoopbackHost url.hostname) ∨
    ((IsQuad url.hostname ∨ IsBracketed url.hostname) ∧ ¬ IsLoopbackHost url.hostname)

/-- The dev policy is a conservative extension of the production one. -/
structure ExtendsProduction (idna : Idna) : Prop where
  keeps : ∀ s, canonicalizeServerOrigin idna s = some s → canonicalizeDevOrigin idna s = some s
  serverInput : ∀ s result, canonicalizeServerOrigin idna s = some result → result = s
  devInput : ∀ s result, canonicalizeDevOrigin idna s = some result → result = s
  beyond : ∀ s, canonicalizeDevOrigin idna s = some s →
    (canonicalizeServerOrigin idna s = none ↔ ∃ url, newUrl idna s = .url url ∧ DevOnly url)

/-! ### Hosts that were read -/

/-- What the host parser writes. -/
structure IsReadHost (host : JsString) : Prop where
  bracketed : host.head? = some (unit '[') → IsBracketed host
  named : host.head? ≠ some (unit '[') → endsInNumber host = true → IsQuad host

theorem head_quadText (a b c d : Nat) : (quadText a b c d).head? ≠ some (unit '[') := by
  obtain ⟨u, rest, hrest⟩ := List.exists_cons_of_ne_nil (digitUnits_ne_nil a)
  have hhead : (quadText a b c d).head? = some u := by
    simp only [quadText, join, List.intercalate_cons_cons, hrest, List.cons_append, List.head?_cons]
  have hdigit : isDigit u = true := digitUnits_isDigit a u (hrest ▸ List.mem_cons_self)
  rw [hhead]
  intro h
  rw [Option.some.inj h] at hdigit
  exact absurd hdigit (by decide)

theorem isReadHost_of_hostParser {idna : Idna} {s host : JsString}
    (h : hostParser idna s = some host) : IsReadHost host := by
  rw [hostParser] at h
  by_cases hbracket : s.head? = some (unit '[')
  · rw [if_pos hbracket] at h
    obtain ⟨-, h⟩ := Option.ite_none_right_eq_some.mp h
    obtain ⟨pieces, -, rfl⟩ := Option.map_eq_some_iff.mp h
    exact ⟨fun _ => ⟨pieces, rfl⟩, fun hc => absurd rfl hc⟩
  · rw [if_neg hbracket] at h
    cases hdomain : idna.domainToAscii (utf8Decode (percentDecode (utf8Encode s))) with
    | none =>
        rw [hdomain] at h
        cases h
    | some domain =>
        rw [hdomain] at h
        obtain ⟨hallowed, h⟩ := Option.ite_none_left_eq_some.mp h
        cases hends : endsInNumber domain with
        | true =>
            rw [hends, if_pos rfl] at h
            obtain ⟨n, -, rfl⟩ := Option.map_eq_some_iff.mp h
            obtain ⟨a, b, c, d, ha, hb, hc, hd, htext⟩ := ipv4Text_eq n
            rw [htext]
            exact ⟨fun hc => absurd hc (head_quadText a b c d),
              fun _ _ => ⟨a, b, c, d, ha, hb, hc, hd, rfl⟩⟩
        | false =>
            rw [hends, if_neg Bool.false_ne_true] at h
            obtain rfl := Option.some.inj h
            refine ⟨fun hc => absurd ?_ hallowed, fun _ hc => ?_⟩
            · exact List.any_eq_true.mpr ⟨unit '[', List.mem_of_mem_head? hc, by decide⟩
            · rw [hends] at hc
              exact absurd hc Bool.false_ne_true

/-- The host of a URL has been read. -/
theorem isReadHost_of_newUrl {idna : Idna} {input : JsString} {url : Url}
    (h : newUrl idna input = .url url) : IsReadHost url.hostname := by
  rw [newUrl] at h
  split at h
  · cases h
  · rename_i scheme rest _
    split at h
    · split at h
      · cases h
      · rename_i read hread
        obtain rfl := UrlResult.url.inj h
        rw [parseAuthority] at hread
        split at hread
        · cases hread
        · split at hread
          · rename_i hostname port hhost hport
            obtain rfl := Option.some.inj hread
            exact isReadHost_of_hostParser hhost
          · cases hread
    · cases h

section

variable {host : JsString}

/-! ### Addresses of four bytes -/

theorem isOctetText_digitUnits {n : Nat} (h : n < 256) : isOctetText (digitUnits n) = true := by
  have hne : digitUnits n ≠ [] := digitUnits_ne_nil n
  have hlength : (digitUnits n).length ≤ 3 := digitUnits_length_le (by decide) (by omega)
  have hpos : 0 < (digitUnits n).length := List.length_pos_iff.mpr hne
  rw [isOctetText, List.all_eq_true.mpr (digitUnits_isDigit n), Bool.and_true, Bool.and_eq_true,
    decide_eq_true_eq, decide_eq_true_eq]
  exact ⟨hpos, hlength⟩

theorem isIpv4Text_of_isQuad (h : IsQuad host) : isIpv4Text host = true := by
  obtain ⟨a, b, c, d, ha, hb, hc, hd, rfl⟩ := h
  rw [isIpv4Text, labelsOf_quadText]
  simp only [List.all_cons, List.all_nil, isOctetText_digitUnits ha, isOctetText_digitUnits hb,
    isOctetText_digitUnits hc, isOctetText_digitUnits hd]
  rfl

theorem ipv4OctetsValid_of_isQuad (h : IsQuad host) : ipv4OctetsValid host = true := by
  rw [ipv4OctetsValid, isIpv4Text_of_isQuad h, Bool.true_and, List.all_eq_true]
  obtain ⟨a, b, c, d, ha, hb, hc, hd, rfl⟩ := h
  intro part hpart
  rw [labelsOf_quadText] at hpart
  have hle : ∀ {n : Nat}, n < 256 → decide (digitsValue (digitUnits n) ≤ 255) = true := by
    intro n hn
    rw [digitsValue_digitUnits, decide_eq_true_eq]
    omega
  simp only [List.mem_cons, List.not_mem_nil, or_false] at hpart
  rcases hpart with rfl | rfl | rfl | rfl
  · exact hle ha
  · exact hle hb
  · exact hle hc
  · exact hle hd

/-- A text of four numbers ends in a number. -/
theorem endsInNumber_of_isIpv4Text (h : isIpv4Text host = true) : endsInNumber host = true := by
  rw [isIpv4Text, Bool.and_eq_true, decide_eq_true_eq, List.all_eq_true] at h
  obtain ⟨hlength, hlabels⟩ := h
  have hne : labelsOf host ≠ [] := by
    intro hnil
    rw [hnil] at hlength
    cases hlength
  obtain ⟨last, hlast⟩ := List.getLast?_isSome.mpr hne |> Option.isSome_iff_exists.mp
  have hoctet := hlabels last (List.mem_of_getLast? hlast)
  rw [isOctetText, Bool.and_eq_true, Bool.and_eq_true, decide_eq_true_eq] at hoctet
  have hlastne : last ≠ [] := by
    rintro rfl
    exact absurd hoctet.1.1 (by decide)
  have hparts : ipv4Parts host = labelsOf host := by
    rw [ipv4Parts]
    refine if_neg ?_
    rintro ⟨hempty, -⟩
    exact hlastne (Option.some.inj (hlast.symm.trans hempty))
  rw [endsInNumber, hparts, hlast]
  dsimp only
  rw [hoctet.2, decide_eq_true hlastne]
  rfl

/-- **A host that was read and looks like an IPv4 address is one.** -/
theorem isQuad_of_isIpv4Text (hread : IsReadHost host) (h : isIpv4Text host = true) :
    IsQuad host := by
  refine hread.named (fun hbracket => ?_) (endsInNumber_of_isIpv4Text h)
  exact absurd (isNameUnit_of_ipv4 h _ (List.mem_of_mem_head? hbracket)) (by decide)

theorem isIpv4Text_iff (hread : IsReadHost host) : isIpv4Text host = true ↔ IsQuad host :=
  ⟨isQuad_of_isIpv4Text hread, isIpv4Text_of_isQuad⟩

theorem head_bracket_iff (hread : IsReadHost host) :
    host.head? = some (unit '[') ↔ IsBracketed host := by
  refine ⟨hread.bracketed, ?_⟩
  rintro ⟨pieces, rfl⟩
  rfl

/-- What production takes for loopback is the loopback. -/
theorem isLoopback_iff (hread : IsReadHost host) : isLoopback host = true ↔ IsLoopbackHost host := by
  have hseven : js "127" = digitUnits 127 := by decide
  rw [isLoopback, Bool.or_eq_true, Bool.or_eq_true, decide_eq_true_eq, decide_eq_true_eq, or_assoc,
    IsLoopbackHost]
  refine or_congr_right (or_congr_right ?_)
  rw [isLoopbackV4, Bool.and_eq_true, decide_eq_true_eq]
  constructor
  · rintro ⟨hfour, hhead⟩
    obtain ⟨a, b, c, d, -, hb, hc, hd, rfl⟩ := isQuad_of_isIpv4Text hread hfour
    rw [labelsOf_quadText, hseven] at hhead
    obtain rfl := digitUnits_injective (Option.some.inj hhead)
    exact ⟨b, c, d, hb, hc, hd, rfl⟩
  · rintro ⟨b, c, d, hb, hc, hd, rfl⟩
    refine ⟨isIpv4Text_of_isQuad ⟨127, b, c, d, by decide, hb, hc, hd, rfl⟩, ?_⟩
    rw [labelsOf_quadText, hseven]
    rfl

/-- A loopback host that is no address is a name. -/
theorem dns_of_isLoopbackHost (h : IsLoopbackHost host) (hbracket : host.head? ≠ some (unit '['))
    (hfour : isIpv4Text host = false) : (labelsOf host).all isDnsLabel = true := by
  rcases h with rfl | rfl | ⟨b, c, d, hb, hc, hd, rfl⟩
  · decide
  · exact absurd rfl hbracket
  · rw [isIpv4Text_of_isQuad ⟨127, b, c, d, by decide, hb, hc, hd, rfl⟩] at hfour
    exact nomatch hfour

end

/-! ### The conditions -/

/-- The conditions that both policies have. -/
structure IsCanonicalUrl (url : Url) (input : JsString) : Prop where
  scheme : ¬ (url.protocol ≠ js "wss:" ∧ url.protocol ≠ js "ws:")
  userinfo : ¬ (url.username ≠ [] ∨ url.password ≠ [])
  tail : ¬ (url.search ≠ [] ∨ url.hash ≠ [])
  path : ¬ (url.pathname ≠ [] ∧ url.pathname ≠ js "/")
  port : ¬ url.port = js "0"
  dot : ¬ url.hostname.getLast? = some (unit '.')
  percent : ¬ url.hostname.contains (unit '%') = true
  text : url.protocol ++ js "//" ++ url.hostname ++
    (if url.port = [] then [] else unit ':' :: url.port) = input

section

variable {url : Url} {input result : JsString}

theorem canonicalizeUrl_eq_some_iff :
    canonicalizeUrl url input = some result ↔ result = input ∧ IsCanonicalUrl url input ∧
      ¬ (url.protocol = js "ws:" ∧ isLoopback url.hostname = false) ∧
      ¬ ((url.hostname.head? = some (unit '[') ∨ isIpv4Text url.hostname = true) ∧
        isLoopback url.hostname = false) ∧
      ¬ (isLoopback url.hostname = false ∧ (labelsOf url.hostname).all isDnsLabel = false) := by
  rw [canonicalizeUrl]
  simp only [Option.ite_none_left_eq_some, Option.ite_none_right_eq_some, Option.some.injEq]
  constructor
  · rintro ⟨hscheme, hws, huser, htail, hpath, hport, hdot, hpercent, haddress, hdns, htext, hresult⟩
    exact ⟨hresult.symm.trans htext, ⟨hscheme, huser, htail, hpath, hport, hdot, hpercent, htext⟩,
      hws, haddress, hdns⟩
  · rintro ⟨rfl, ⟨hscheme, huser, htail, hpath, hport, hdot, hpercent, htext⟩, hws, haddress, hdns⟩
    exact ⟨hscheme, hws, huser, htail, hpath, hport, hdot, hpercent, haddress, hdns, htext, htext⟩

theorem canonicalizeDevUrl_eq_some_iff :
    canonicalizeDevUrl url input = some result ↔ result = input ∧ IsCanonicalUrl url input ∧
      ¬ (isIpv4Text url.hostname = true ∧ ipv4OctetsValid url.hostname = false) ∧
      ¬ ((url.hostname.head? ≠ some (unit '[') ∧ isIpv4Text url.hostname = false) ∧
        (labelsOf url.hostname).all isDnsLabel = false) := by
  rw [canonicalizeDevUrl]
  simp only [Option.ite_none_left_eq_some, Option.ite_none_right_eq_some, Option.some.injEq]
  constructor
  · rintro ⟨hscheme, huser, htail, hpath, hport, hdot, hpercent, hoctets, hdns, htext, hresult⟩
    exact ⟨hresult.symm.trans htext, ⟨hscheme, huser, htail, hpath, hport, hdot, hpercent, htext⟩,
      hoctets, hdns⟩
  · rintro ⟨rfl, ⟨hscheme, huser, htail, hpath, hport, hdot, hpercent, htext⟩, hoctets, hdns⟩
    exact ⟨hscheme, huser, htail, hpath, hport, hdot, hpercent, hoctets, hdns, htext, htext⟩

/-- What production lets through is no `DevOnly` URL, and the dev policy lets it through. -/
theorem dev_of_production (hread : IsReadHost url.hostname)
    (h : canonicalizeUrl url input = some result) :
    canonicalizeDevUrl url input = some result ∧ ¬ DevOnly url := by
  obtain ⟨hresult, hcanonical, hws, haddress, hdns⟩ := canonicalizeUrl_eq_some_iff.mp h
  have hnot : ¬ IsLoopbackHost url.hostname → isLoopback url.hostname = false := by
    intro hhost
    exact Bool.eq_false_iff.mpr fun hc => hhost ((isLoopback_iff hread).mp hc)
  refine ⟨canonicalizeDevUrl_eq_some_iff.mpr ⟨hresult, hcanonical, ?_, ?_⟩, ?_⟩
  · rintro ⟨hfour, hoctets⟩
    rw [ipv4OctetsValid_of_isQuad (isQuad_of_isIpv4Text hread hfour)] at hoctets
    exact nomatch hoctets
  · rintro ⟨⟨hbracket, hfour⟩, hall⟩
    cases hloop : isLoopback url.hostname with
    | false => exact hdns ⟨hloop, hall⟩
    | true =>
        rw [dns_of_isLoopbackHost ((isLoopback_iff hread).mp hloop) hbracket hfour] at hall
        exact nomatch hall
  · rintro (⟨hplain, hhost⟩ | ⟨hliteral, hhost⟩)
    · exact hws ⟨hplain, hnot hhost⟩
    · rw [← isIpv4Text_iff hread, ← head_bracket_iff hread] at hliteral
      exact haddress ⟨hliteral.symm, hnot hhost⟩

/-- What only the dev policy lets through is a `DevOnly` URL. -/
theorem devOnly_of_dev (hread : IsReadHost url.hostname)
    (hdev : canonicalizeDevUrl url input = some input)
    (h : canonicalizeUrl url input = none) : DevOnly url := by
  obtain ⟨-, hcanonical, -, hdns⟩ := canonicalizeDevUrl_eq_some_iff.mp hdev
  by_contra hnot
  have hloop : isLoopback url.hostname = false → ¬ IsLoopbackHost url.hostname := by
    intro hfalse hc
    rw [(isLoopback_iff hread).mpr hc] at hfalse
    exact nomatch hfalse
  have hsome : canonicalizeUrl url input = some input := by
    refine canonicalizeUrl_eq_some_iff.mpr ⟨rfl, hcanonical, ?_, ?_, ?_⟩
    · rintro ⟨hplain, hfalse⟩
      exact hnot (Or.inl ⟨hplain, hloop hfalse⟩)
    · rintro ⟨hliteral, hfalse⟩
      rw [isIpv4Text_iff hread, head_bracket_iff hread] at hliteral
      exact hnot (Or.inr ⟨hliteral.symm, hloop hfalse⟩)
    · -- no address, so the dev policy has looked at the labels
      rintro ⟨hfalse, hall⟩
      refine hdns ⟨⟨fun hbracket => ?_, Bool.eq_false_iff.mpr fun hfour => ?_⟩, hall⟩
      · exact hnot (Or.inr ⟨Or.inr (hread.bracketed hbracket), hloop hfalse⟩)
      · exact hnot (Or.inr ⟨Or.inl (isQuad_of_isIpv4Text hread hfour), hloop hfalse⟩)
  rw [hsome] at h
  exact nomatch h

end

/-- **The dev policy lets through what production does, and beyond it exactly `ws` to other hosts
than loopback and literal addresses other than loopback.** -/
theorem canonicalizeDevOrigin_extends (idna : Idna) : ExtendsProduction idna := by
  refine ⟨fun s h => ?_, fun s result h => ?_, fun s result h => ?_, fun s hdev => ?_⟩
  · rw [canonicalizeServerOrigin] at h
    rw [canonicalizeDevOrigin]
    cases hurl : newUrl idna s with
    | failure => rw [hurl] at h; cases h
    | otherScheme => rw [hurl] at h; cases h
    | url url =>
        rw [hurl] at h
        exact (dev_of_production (isReadHost_of_newUrl hurl) h).1
  · exact (canonicalizeServerOrigin_eq_some_iff.mp h).1
  · rw [canonicalizeDevOrigin] at h
    cases hurl : newUrl idna s with
    | failure => rw [hurl] at h; cases h
    | otherScheme => rw [hurl] at h; cases h
    | url url =>
        rw [hurl] at h
        exact (canonicalizeDevUrl_eq_some_iff.mp h).1
  · rw [canonicalizeDevOrigin] at hdev
    rw [canonicalizeServerOrigin]
    cases hurl : newUrl idna s with
    | failure => rw [hurl] at hdev; cases hdev
    | otherScheme => rw [hurl] at hdev; cases hdev
    | url url =>
        rw [hurl] at hdev
        have hread := isReadHost_of_newUrl hurl
        constructor
        · exact fun h => ⟨url, rfl, devOnly_of_dev hread hdev h⟩
        · rintro ⟨url', heq, honly⟩
          obtain rfl := UrlResult.url.inj heq
          cases h : canonicalizeUrl url s with
          | none => exact h
          | some result => exact absurd honly (dev_of_production hread h).2

end HuginAgent
