/-
Hosts of URLs, as the WHATWG URL standard parses and writes them.

`new URL` reads the host of a special scheme in one of three ways.  In brackets it is an IPv6
address, and is written again in its shortest form.  Else it is a domain, put into ASCII; and a
domain whose last label is a number is an IPv4 address, in any notation, and is written again as
four decimal numbers.

How a domain is put into ASCII depends on the tables of Unicode, and is a parameter.  What is
relied on is what the standard says of it: the result is ASCII in lower case, and a domain that is
ASCII and has no label that begins with `xn--` is only put into lower case.
-/
import HuginAgent.Js.Cursor
import HuginAgent.Js.Size
import HuginAgent.Js.Strings
import HuginAgent.Kit.Lines

namespace HuginAgent

/-! ### Domains -/

/-- `host.split(".")`. -/
def labelsOf (host : JsString) : List JsString := splitAll (unit '.') host

/-- The label begins with `xn--`, in either case. -/
def isAceLabel (label : JsString) : Bool := toLowerCase (label.take 4) = js "xn--"

/-- Domain to ASCII. -/
structure Idna where
  domainToAscii : JsString → Option JsString
  isAscii_of_eq : ∀ {domain result}, domainToAscii domain = some result →
    ∀ u ∈ result, isAscii u = true
  lower_of_eq : ∀ {domain result}, domainToAscii domain = some result → toLowerCase result = result
  lower : ∀ {domain}, domain ≠ [] → (∀ u ∈ domain, isAscii u = true) →
    (∀ label ∈ labelsOf domain, isAceLabel label = false) →
    domainToAscii domain = some (toLowerCase domain)

/-- Forbidden domain code points. -/
def isForbiddenInDomain (u : UInt16) : Bool :=
  u ≤ 0x20 || u = 0x7F ||
    [unit '#', unit '/', unit ':', unit '<', unit '>', unit '?', unit '@', unit '[', unit '\\',
      unit ']', unit '^', unit '|', unit '%'].contains u

/-! ### IPv4 -/

/-- The digits of a number after its prefix, and their base. -/
def ipv4Radix (s : JsString) : Nat × JsString :=
  if (toLowerCase (s.take 2)) = js "0x" then (16, s.drop 2)
  else if 2 ≤ s.length ∧ s.head? = some (unit '0') then (8, s.drop 1)
  else (10, s)

/-- A digit of a base. -/
def radixVal (base : Nat) (u : UInt16) : Option Nat := (hexVal u).filter fun d => d < base

/-- The IPv4 number parser. -/
def ipv4Number (s : JsString) : Option Nat :=
  if s = [] then none
  else
    let (base, digits) := ipv4Radix s
    (digits.mapM (radixVal base)).map fun ds => Nat.ofDigits base ds.reverse

/-- The parts of a host, without an empty one at the end. -/
def ipv4Parts (host : JsString) : List JsString :=
  let parts := labelsOf host
  if parts.getLast? = some [] ∧ 1 < parts.length then parts.dropLast else parts

/-- The ends-in-a-number checker. -/
def endsInNumber (host : JsString) : Bool :=
  match (ipv4Parts host).getLast? with
  | some last => (last ≠ [] && last.all isDigit) || (ipv4Number last).isSome
  | none => false

/-- The numbers of an address, of which the last may stand for several bytes. -/
def ipv4Value (numbers : List Nat) : Option Nat :=
  match numbers.getLast? with
  | none => none
  | some last =>
      if numbers.dropLast.any fun n => 255 < n then none
      else if 256 ^ (5 - numbers.length) ≤ last then none
      else some (last + (numbers.dropLast.zipIdx.map fun p => p.1 * 256 ^ (3 - p.2)).sum)

/-- The IPv4 parser. -/
def ipv4Parse (host : JsString) : Option Nat :=
  if 4 < (ipv4Parts host).length then none
  else ((ipv4Parts host).mapM ipv4Number).bind ipv4Value

/-- The IPv4 serializer. -/
def ipv4Text (address : Nat) : JsString :=
  join '.' [digitUnits (address / 256 ^ 3 % 256), digitUnits (address / 256 ^ 2 % 256),
    digitUnits (address / 256 % 256), digitUnits (address % 256)]

/-! ### IPv6 -/

/-- What has been read of an address: its pieces, and where it is compressed. -/
structure Ipv6State where
  pieces : List Nat
  compress : Option Nat

/-- A decimal number of at most 255 without leading zeros. -/
def ipv6Byte (s : JsString) : Option Nat :=
  if s ≠ [] ∧ s.all isDigit ∧ (s.length = 1 ∨ s.head? ≠ some (unit '0')) ∧ digitsValue s ≤ 255 then
    some (digitsValue s)
  else none

/-- An IPv4 address at the end is the last two pieces. -/
def ipv6Tail (s : JsString) : Option (List Nat) :=
  match (labelsOf s).mapM ipv6Byte with
  | some [a, b, c, d] => some [a * 256 + b, c * 256 + d]
  | _ => none

/-- The digits of a piece, at most four, and what comes after them. -/
def ipv6Piece (s : JsString) : List Nat × JsString :=
  let digits := (s.take 4).takeWhile fun u => (hexVal u).isSome
  (digits.filterMap hexVal, s.drop digits.length)

/-- The main loop of the IPv6 parser. -/
def ipv6Loop : (fuel : Nat) → JsString → Ipv6State → Option Ipv6State
  | 0, _, _ => none
  | _ + 1, [], st => some st
  | fuel + 1, u :: rest, st =>
      if st.pieces.length = 8 then none
      else if u = unit ':' then
        if st.compress.isSome then none
        else
          ipv6Loop fuel rest
            { pieces := st.pieces ++ [0], compress := some (st.pieces.length + 1) }
      else
        let piece := ipv6Piece (u :: rest)
        let value := piece.1.foldl (fun n d => n * 16 + d) 0
        let next := { st with pieces := st.pieces ++ [value] }
        match piece.2 with
        | [] => some next
        | v :: after =>
            if v = unit '.' then
              if piece.1 = [] ∨ 6 < st.pieces.length then none
              else (ipv6Tail (u :: rest)).map fun tail => { st with pieces := st.pieces ++ tail }
            else if v = unit ':' ∧ after ≠ [] then ipv6Loop fuel after next
            else none

/-- The IPv6 parser. -/
def ipv6Parse (s : JsString) : Option (List Nat) :=
  let start : Option (JsString × Ipv6State) :=
    match s with
    | u :: v :: rest =>
        if u = unit ':' then
          if v = unit ':' then some (rest, ⟨[0], some 1⟩) else none
        else some (s, ⟨[], none⟩)
    | [u] => if u = unit ':' then none else some (s, ⟨[], none⟩)
    | [] => some (s, ⟨[], none⟩)
  match start.bind fun p => ipv6Loop (s.length + 1) p.1 p.2 with
  | none => none
  | some st =>
      match st.compress with
      | some at_ =>
          some (st.pieces.take at_ ++ List.replicate (8 - st.pieces.length) 0 ++ st.pieces.drop at_)
      | none => if st.pieces.length = 8 then some st.pieces else none

/-- How many zeros a list begins with. -/
def zeroRun (pieces : List Nat) : Nat := (pieces.takeWhile fun n => n = 0).length

/-- Where the first longest run of at least two zeros begins. -/
def compressAt (pieces : List Nat) : Option Nat :=
  let runs := (List.range pieces.length).map fun i => zeroRun (pieces.drop i)
  let longest := runs.foldl max 0
  if longest < 2 then none else runs.findIdx? fun n => n = longest

/-- A piece in hexadecimal, without leading zeros. -/
def hexDigits (n : Nat) : JsString :=
  if n = 0 then [unit '0'] else ((Nat.digits 16 n).map hexDigit).reverse

/-- The IPv6 serializer. -/
def ipv6Text (pieces : List Nat) : JsString :=
  match compressAt pieces with
  | none => join ':' (pieces.map hexDigits)
  | some i =>
      join ':' ((pieces.take i).map hexDigits) ++ js "::" ++
        join ':' ((pieces.drop (i + zeroRun (pieces.drop i))).map hexDigits)

/-! ### Hosts -/

/-- Percent-decoding of bytes. -/
def percentDecode : List UInt8 → List UInt8
  | [] => []
  | b :: rest =>
      match rest with
      | h :: l :: after =>
          match hexVal h.toUInt16, hexVal l.toUInt16 with
          | some hi, some lo =>
              if b = 0x25 then (16 * hi + lo).toUInt8 :: percentDecode after
              else b :: percentDecode (h :: l :: after)
          | _, _ => b :: percentDecode (h :: l :: after)
      | rest => b :: percentDecode rest

/-- The host parser, for a special scheme, and the host serializer. -/
def hostParser (idna : Idna) (s : JsString) : Option JsString :=
  if s.head? = some (unit '[') then
    if s.getLast? = some (unit ']') then
      (ipv6Parse (s.drop 1).dropLast).map fun pieces => unit '[' :: (ipv6Text pieces ++ [unit ']'])
    else none
  else
    match idna.domainToAscii (utf8Decode (percentDecode (utf8Encode s))) with
    | none => none
    | some domain =>
        if domain.any isForbiddenInDomain then none
        else if endsInNumber domain then (ipv4Parse domain).map ipv4Text
        else some domain

/-! ### Texts of numbers -/

theorem isDigit_ne_dot {u : UInt16} (h : isDigit u = true) : u ≠ unit '.' := by
  rintro rfl
  exact absurd h (by decide)

theorem hexVal_of_isDigit {u : UInt16} (h : isDigit u = true) : hexVal u = some (digitVal u) := by
  rw [hexVal, if_pos h]

theorem digitVal_lt {u : UInt16} (h : isDigit u = true) : digitVal u < 10 := by
  simp only [isDigit, Bool.and_eq_true, decide_eq_true_eq, UInt16.le_iff_toNat_le] at h
  have h57 : (57 : UInt16).toNat = 57 := rfl
  rw [digitVal]
  omega

theorem toLowerCase_digits {s : JsString} (h : ∀ u ∈ s, isDigit u = true) : toLowerCase s = s := by
  rw [toLowerCase]
  refine (List.map_congr_left ?_).trans (List.map_id s)
  intro u hu
  have hdigit := h u hu
  simp only [isDigit, Bool.and_eq_true, decide_eq_true_eq, UInt16.le_iff_toNat_le] at hdigit
  refine if_neg ?_
  simp only [Bool.and_eq_true, decide_eq_true_eq, not_and, UInt16.le_iff_toNat_le]
  have h57 : (57 : UInt16).toNat = 57 := rfl
  have h65 : (65 : UInt16).toNat = 65 := rfl
  omega

/-- A text with other units than digits is not the beginning of a number, whatever the case. -/
theorem toLowerCase_toLowerCase (s : JsString) : toLowerCase (toLowerCase s) = toLowerCase s := by
  rw [toLowerCase, toLowerCase, List.map_map]
  refine List.map_congr_left fun u _ => ?_
  rw [Function.comp_apply]
  split
  · rename_i hupper
    refine if_neg ?_
    simp only [Bool.and_eq_true, decide_eq_true_eq, UInt16.le_iff_toNat_le, UInt16.toNat_add] at hupper ⊢
    have h65 : (65 : UInt16).toNat = 65 := rfl
    have h90 : (90 : UInt16).toNat = 90 := rfl
    have h32 : (32 : UInt16).toNat = 32 := rfl
    omega
  · rfl

theorem toLowerCase_take_ne {n k : Nat} {s : JsString} (h : s.all isDigit = false) :
    toLowerCase ((digitUnits n).take k) ≠ s := by
  have hdigits : ∀ u ∈ (digitUnits n).take k, isDigit u = true :=
    fun u hu => digitUnits_isDigit n u (List.mem_of_mem_take hu)
  rw [toLowerCase_digits hdigits]
  rintro rfl
  rw [List.all_eq_true.mpr hdigits] at h
  exact Bool.false_ne_true h.symm

/-- **A decimal number without leading zeros is read as itself.** -/
theorem ipv4Number_digitUnits (n : Nat) : ipv4Number (digitUnits n) = some n := by
  have hdigits := digitUnits_isDigit n
  have hradix : ipv4Radix (digitUnits n) = (10, digitUnits n) := by
    have hhex : toLowerCase ((digitUnits n).take 2) ≠ js "0x" := toLowerCase_take_ne (by decide)
    have hzero : ¬ (2 ≤ (digitUnits n).length ∧ (digitUnits n).head? = some (unit '0')) := by
      rintro ⟨hlength, hhead⟩
      by_cases hn : n = 0
      · rw [hn] at hlength
        exact absurd hlength (by decide)
      · exact digitUnits_head hn hhead
    rw [ipv4Radix, if_neg hhex, if_neg hzero]
  have hvals : ∀ ds : JsString, (∀ u ∈ ds, isDigit u = true) →
      ds.mapM (radixVal 10) = some (ds.map digitVal) := by
    intro ds
    induction ds with
    | nil => exact fun _ => rfl
    | cons u ds ih =>
        intro h
        have hu := h u List.mem_cons_self
        have hval : radixVal 10 u = some (digitVal u) := by
          rw [radixVal, hexVal_of_isDigit hu, Option.filter_some, if_pos (decide_eq_true (digitVal_lt hu))]
        rw [List.mapM_cons, hval, ih fun v hv => h v (List.mem_cons_of_mem _ hv)]
        rfl
  have hvalue := digitsValue_digitUnits n
  rw [digitsValue] at hvalue
  rw [ipv4Number, if_neg (digitUnits_ne_nil n), hradix]
  dsimp only
  rw [hvals _ hdigits, Option.map_some, hvalue]

/-- Four numbers as text. -/
def quadText (a b c d : Nat) : JsString :=
  join '.' [digitUnits a, digitUnits b, digitUnits c, digitUnits d]

theorem labelsOf_quadText (a b c d : Nat) :
    labelsOf (quadText a b c d) = [digitUnits a, digitUnits b, digitUnits c, digitUnits d] := by
  have hdot : ∀ n, unit '.' ∉ digitUnits n :=
    fun n h => isDigit_ne_dot (digitUnits_isDigit n _ h) rfl
  have htext : quadText a b c d = digitUnits a ++ unit '.' :: (digitUnits b ++ unit '.' ::
      (digitUnits c ++ unit '.' :: digitUnits d)) := by
    simp only [quadText, join, List.intercalate_cons_cons, List.intercalate_singleton,
      List.append_assoc, List.singleton_append]
  rw [labelsOf, htext, splitAll_append (hdot a), splitAll_append (hdot b), splitAll_append (hdot c),
    splitAll_of_notMem (hdot d)]

theorem toLowerCase_quadText (a b c d : Nat) : toLowerCase (quadText a b c d) = quadText a b c d := by
  have hdigits : ∀ n, toLowerCase (digitUnits n) = digitUnits n :=
    fun n => toLowerCase_digits (digitUnits_isDigit n)
  have happend : ∀ s t, toLowerCase (s ++ t) = toLowerCase s ++ toLowerCase t :=
    fun _ _ => List.map_append
  simp only [quadText, join, List.intercalate_cons_cons, List.intercalate_singleton, happend, hdigits]
  rfl

theorem ipv4Text_eq (n : Nat) :
    ∃ a b c d, a < 256 ∧ b < 256 ∧ c < 256 ∧ d < 256 ∧ ipv4Text n = quadText a b c d :=
  ⟨_, _, _, _, Nat.mod_lt _ (by decide), Nat.mod_lt _ (by decide), Nat.mod_lt _ (by decide),
    Nat.mod_lt _ (by decide), rfl⟩

theorem ipv4Parts_quadText (a b c d : Nat) :
    ipv4Parts (quadText a b c d) = [digitUnits a, digitUnits b, digitUnits c, digitUnits d] := by
  rw [ipv4Parts, labelsOf_quadText]
  refine if_neg ?_
  rintro ⟨hlast, -⟩
  exact digitUnits_ne_nil d (Option.some.inj hlast)

/-- **Four bytes in decimal are read and written again as themselves.** -/
theorem ipv4_quadText {a b c d : Nat} (ha : a < 256) (hb : b < 256) (hc : c < 256) (hd : d < 256) :
    (ipv4Parse (quadText a b c d)).map ipv4Text = some (quadText a b c d) := by
  have hmap : [digitUnits a, digitUnits b, digitUnits c, digitUnits d].mapM ipv4Number =
      some [a, b, c, d] := by
    simp only [List.mapM_cons, List.mapM_nil, ipv4Number_digitUnits]
    rfl
  have hvalue : ipv4Value [a, b, c, d] =
      some (d + (a * 256 ^ 3 + (b * 256 ^ 2 + (c * 256 ^ 1 + 0)))) := by
    have hlarge : ([a, b, c, d].dropLast.any fun n => decide (255 < n)) = false := by
      simp only [List.dropLast, List.any_cons, List.any_nil, Bool.or_eq_false_iff,
        decide_eq_false_iff_not, and_true]
      omega
    have hlast : ¬ 256 ^ (5 - [a, b, c, d].length) ≤ d := by
      show ¬ 256 ≤ d
      omega
    show (if _ then _ else if 256 ^ (5 - [a, b, c, d].length) ≤ d then _ else _) = _
    rw [hlarge, if_neg Bool.false_ne_true, if_neg hlast]
    rfl
  have hfour : ¬ 4 < [digitUnits a, digitUnits b, digitUnits c, digitUnits d].length := by
    exact Nat.lt_irrefl 4
  rw [ipv4Parse, ipv4Parts_quadText, if_neg hfour, hmap, Option.bind_some, hvalue, Option.map_some,
    ipv4Text, quadText]
  have h₁ : (d + (a * 256 ^ 3 + (b * 256 ^ 2 + (c * 256 ^ 1 + 0)))) / 256 ^ 3 % 256 = a := by omega
  have h₂ : (d + (a * 256 ^ 3 + (b * 256 ^ 2 + (c * 256 ^ 1 + 0)))) / 256 ^ 2 % 256 = b := by omega
  have h₃ : (d + (a * 256 ^ 3 + (b * 256 ^ 2 + (c * 256 ^ 1 + 0)))) / 256 % 256 = c := by omega
  have h₄ : (d + (a * 256 ^ 3 + (b * 256 ^ 2 + (c * 256 ^ 1 + 0)))) % 256 = d := by omega
  rw [h₁, h₂, h₃, h₄]

/-! ### Hosts without brackets -/

theorem utf8Encode_ascii {s : JsString} (h : ∀ u ∈ s, isAscii u = true) :
    utf8Encode s = s.map fun u => u.toNat.toUInt8 := by
  induction s with
  | nil => rfl
  | cons u rest ih =>
      have hu := h u List.mem_cons_self
      have hpoint : utf8Point u.toNat = [u.toNat.toUInt8] := by
        simp only [isAscii, decide_eq_true_eq, UInt16.lt_iff_toNat_lt] at hu
        exact if_pos hu
      have hrest := ih fun v hv => h v (List.mem_cons_of_mem _ hv)
      cases rest with
      | nil =>
          rw [utf8Encode, not_high_of_ascii hu, not_low_of_ascii hu]
          exact hpoint
      | cons v rest =>
          rw [utf8Encode, not_high_of_ascii hu, not_low_of_ascii hu, hrest]
          exact congrArg (· ++ _) hpoint

theorem percentDecode_of_notMem {bytes : List UInt8} (h : (0x25 : UInt8) ∉ bytes) :
    percentDecode bytes = bytes := by
  induction bytes with
  | nil => rfl
  | cons b rest ih =>
      rw [List.mem_cons, not_or] at h
      unfold percentDecode
      split
      · split
        · rw [if_neg (Ne.symm h.1), ih h.2]
        · rw [ih h.2]
      · rw [ih h.2]

/-- An ASCII text without `%` is its own domain. -/
theorem hostParser_ascii {idna : Idna} {s : JsString} (hbracket : s.head? ≠ some (unit '['))
    (h : ∀ u ∈ s, isAscii u = true) (hpercent : unit '%' ∉ s) :
    hostParser idna s =
      match idna.domainToAscii s with
      | none => none
      | some domain =>
          if domain.any isForbiddenInDomain then none
          else if endsInNumber domain then (ipv4Parse domain).map ipv4Text
          else some domain := by
  have hdecode : percentDecode (utf8Encode s) = utf8Encode s := by
    refine percentDecode_of_notMem ?_
    rw [utf8Encode_ascii h]
    intro hmem
    obtain ⟨u, hu, hbyte⟩ := List.mem_map.mp hmem
    have hascii := h u hu
    simp only [isAscii, decide_eq_true_eq, UInt16.lt_iff_toNat_lt] at hascii
    have h128 : (0x80 : UInt16).toNat = 128 := rfl
    have hnat : u.toNat = 0x25 := by
      have hval := congrArg UInt8.toNat hbyte
      rw [toNat_toUInt8 (by omega)] at hval
      exact hval
    have hunit : u = unit '%' := UInt16.toNat_inj.mp hnat
    exact hpercent (hunit ▸ hu)
  have hlone : hasLoneSurrogate s = false := by
    by_cases hs : s = []
    · rw [hs]
      rfl
    · exact sealed_lone (sealed_of_ascii hs h)
  rw [hostParser, if_neg hbracket, hdecode, utf8Decode_utf8Encode s hlone]

/-- A host that is written as the address it stands for. -/
def IsQuad (host : JsString) : Prop :=
  ∃ a b c d, a < 256 ∧ b < 256 ∧ c < 256 ∧ d < 256 ∧ host = quadText a b c d

theorem isAceLabel_of_isQuad {host : JsString} (h : IsQuad host) :
    ∀ label ∈ labelsOf host, isAceLabel label = false := by
  obtain ⟨a, b, c, d, -, -, -, -, rfl⟩ := h
  have hdigits : ∀ n, isAceLabel (digitUnits n) = false :=
    fun n => decide_eq_false (toLowerCase_take_ne (by decide))
  intro label hlabel
  rw [labelsOf_quadText] at hlabel
  simp only [List.mem_cons, List.not_mem_nil, or_false] at hlabel
  rcases hlabel with rfl | rfl | rfl | rfl <;> exact hdigits _

/-- **When a host in lower case is written as itself.** -/
theorem hostParser_fixed_iff {idna : Idna} {host : JsString} (hne : host ≠ [])
    (hascii : ∀ u ∈ host, isAscii u = true) (hallowed : ∀ u ∈ host, isForbiddenInDomain u = false)
    (hlower : toLowerCase host = host) :
    hostParser idna host = some host ↔
      ((∃ label ∈ labelsOf host, isAceLabel label = true) → idna.domainToAscii host = some host) ∧
        (endsInNumber host = true → IsQuad host) := by
  have hnot : ∀ u, isForbiddenInDomain u = true → u ∉ host := by
    intro u hu hmem
    rw [hallowed u hmem] at hu
    exact Bool.false_ne_true hu
  have hbracket : host.head? ≠ some (unit '[') :=
    fun h => hnot (unit '[') (by decide) (List.mem_of_mem_head? h)
  have hclean : host.any isForbiddenInDomain = false := by
    rw [List.any_eq_false]
    exact fun u hu h => Bool.false_ne_true ((hallowed u hu).symm.trans h)
  have hquad : (ipv4Parse host).map ipv4Text = some host ↔ IsQuad host := by
    constructor
    · intro h
      obtain ⟨n, -, hn⟩ := Option.map_eq_some_iff.mp h
      obtain ⟨a, b, c, d, ha, hb, hc, hd, htext⟩ := ipv4Text_eq n
      exact ⟨a, b, c, d, ha, hb, hc, hd, hn.symm.trans htext⟩
    · rintro ⟨a, b, c, d, ha, hb, hc, hd, rfl⟩
      exact ipv4_quadText ha hb hc hd
  rw [hostParser_ascii hbracket hascii (hnot _ (by decide))]
  by_cases hdomain : idna.domainToAscii host = some host
  · simp only [hdomain, hclean, Bool.false_eq_true, if_false, implies_true, true_and]
    cases hends : endsInNumber host with
    | true => simp only [if_true, true_implies, hquad]
    | false => simp only [Bool.false_eq_true, if_false, false_implies]
  · -- the domain is not itself, so a label begins with `xn--`
    have hace : ∃ label ∈ labelsOf host, isAceLabel label = true := by
      by_contra hnone
      refine hdomain ?_
      rw [idna.lower hne hascii, hlower]
      intro label hlabel
      exact Bool.eq_false_iff.mpr fun h => hnone ⟨label, hlabel, h⟩
    refine iff_of_false ?_ fun h => hdomain (h.1 hace)
    intro h
    cases hresult : idna.domainToAscii host with
    | none =>
        rw [hresult] at h
        exact nomatch h
    | some domain =>
        rw [hresult] at h
        dsimp only at h
        split at h
        · exact nomatch h
        · split at h
          · obtain ⟨n, -, hn⟩ := Option.map_eq_some_iff.mp h
            obtain ⟨a, b, c, d, ha, hb, hc, hd, htext⟩ := ipv4Text_eq n
            obtain ⟨label, hlabel, hlabelAce⟩ := hace
            have hfalse := isAceLabel_of_isQuad
              ⟨a, b, c, d, ha, hb, hc, hd, hn.symm.trans htext⟩ label hlabel
            rw [hfalse] at hlabelAce
            exact Bool.false_ne_true hlabelAce
          · rw [hresult, Option.some.inj h] at hdomain
            exact hdomain rfl

/-- A name is read in lower case. -/
theorem hostParser_lower {idna : Idna} {s result : JsString} (hbracket : s.head? ≠ some (unit '['))
    (h : hostParser idna s = some result) : toLowerCase result = result := by
  rw [hostParser, if_neg hbracket] at h
  split at h
  · exact nomatch h
  · rename_i domain hdomain
    split at h
    · exact nomatch h
    · split at h
      · obtain ⟨n, -, rfl⟩ := Option.map_eq_some_iff.mp h
        obtain ⟨a, b, c, d, -, -, -, -, htext⟩ := ipv4Text_eq n
        rw [htext, toLowerCase_quadText]
      · rw [← Option.some.inj h]
        exact idna.lower_of_eq hdomain

/-- The loopback address of IPv6. -/
theorem hostParser_loopback6 (idna : Idna) : hostParser idna (js "[::1]") = some (js "[::1]") := by
  rw [hostParser, if_pos (by decide), if_pos (by decide)]
  decide +kernel

end HuginAgent
