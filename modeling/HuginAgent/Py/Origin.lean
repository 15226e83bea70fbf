/-
Which origins the Python verifier accepts.

`urlsplit` of the text of an origin gives back its scheme, its host in lower case and its port
(`urlsplit_text`).  As on the other side, a text is accepted when what is read of it gives the text
again, so the accepted texts are the `ServerOrigin`s whose host is in lower case
(`Py.canonicalizeServerOrigin_eq_some_iff`).
-/
import HuginAgent.Protocol.Transcript
import HuginAgent.Py.Verifier

namespace HuginAgent

namespace Py

/-! ### Cutting ASCII texts up -/

theorem partition_append {c : CodePoint} {a b : PyString} (h : c ∉ a) :
    partition c (a ++ c :: b) = (a, some b) := by
  have hkeep : ∀ p ∈ a, decide (p ≠ c) = true :=
    fun p hp => decide_eq_true fun hpc => h (hpc ▸ hp)
  have hstop : ¬ (fun p => decide (p ≠ c)) c = true := fun hne => of_decide_eq_true hne rfl
  have hmem : c ∈ a ++ c :: b := List.mem_append_right _ List.mem_cons_self
  rw [partition, if_pos hmem, List.takeWhile_append_of_pos hkeep,
    @List.takeWhile_cons_of_neg _ (fun p => decide (p ≠ c)) _ _ hstop, List.append_nil,
    List.dropWhile_append_of_pos hkeep, @List.dropWhile_cons_of_neg _ (fun p => decide (p ≠ c)) _ _ hstop]
  rfl

theorem partition_of_notMem {c : CodePoint} {a : PyString} (h : c ∉ a) :
    partition c a = (a, none) := by
  have hkeep : ∀ p ∈ a, decide (p ≠ c) = true :=
    fun p hp => decide_eq_true fun hpc => h (hpc ▸ hp)
  rw [partition, if_neg h, List.takeWhile_eq_self_iff.mpr hkeep]

theorem rpartition_of_notMem {c : CodePoint} {a : PyString} (h : c ∉ a) :
    rpartition c a = (none, a) := by
  have hkeep : ∀ p ∈ a, decide (p ≠ c) = true :=
    fun p hp => decide_eq_true fun hpc => h (hpc ▸ hp)
  rw [rpartition, if_neg h, List.rtakeWhile_eq_self_iff.mpr hkeep]

theorem mem_ofUnits {u : UInt16} {t : JsString} : ofUnit u ∈ ofUnits t ↔ u ∈ t :=
  List.mem_map_of_injective ofUnit_injective

theorem ofUnits_append (s t : JsString) : ofUnits (s ++ t) = ofUnits s ++ ofUnits t :=
  List.map_append

/-- The host without brackets. -/
def bareHost (host : JsString) : JsString := if host = js "[::1]" then js "::1" else host

variable (lib : PyLibrary) (o : ServerOrigin)

theorem netloc_units : ∀ u ∈ o.host ++ portText o.port,
    0x20 < u ∧ isAuthorityEnd u = false ∧ u ≠ unit '@' := by
  intro u hu
  rcases List.mem_append.mp hu with hu | hu
  · exact o.hostOk.isHostText.units u hu
  · exact portText_units o.port u hu

theorem notMem_portText {port : Option Nat} {u : UInt16} (h : isDigit u = false ∧ u ≠ unit ':') :
    u ∉ portText port := by
  cases port with
  | none => exact List.not_mem_nil
  | some n =>
      intro hu
      rcases List.mem_cons.mp hu with hu | hu
      · exact h.2 hu
      · rw [digitUnits_isDigit n u hu] at h
        exact Bool.false_ne_true h.1.symm

theorem clean_ofUnits {t : JsString} (h : ∀ u ∈ t, 0x20 < u) :
    ((ofUnits t).dropWhile fun p => p.val ≤ 0x20).filter
      (fun p => p.val ≠ 9 && p.val ≠ 10 && p.val ≠ 13) = ofUnits t := by
  have hlarge : ∀ p ∈ ofUnits t, 0x20 < p.val := by
    intro p hp
    obtain ⟨u, hu, rfl⟩ := List.mem_map.mp hp
    exact UInt16.lt_iff_toNat_lt.mp (h u hu)
  have hdrop : (ofUnits t).dropWhile (fun p => decide (p.val ≤ 0x20)) = ofUnits t := by
    cases ht : ofUnits t with
    | nil => rfl
    | cons p rest =>
        refine List.dropWhile_cons_of_neg ?_
        rw [decide_eq_true_eq, not_le]
        exact hlarge p (ht ▸ List.mem_cons_self)
  rw [hdrop, List.filter_eq_self]
  intro p hp
  have hp := hlarge p hp
  simp only [Bool.and_eq_true, decide_eq_true_eq]
  omega

/-- What `urlsplit` makes of an origin. -/
def originSplit : SplitResult :=
  ⟨ofUnits (schemeText o.secure), ofUnits (o.host ++ portText o.port), [], [], []⟩

theorem splitScheme_text :
    splitScheme lib (ofUnits o.text) =
      (ofUnits (schemeText o.secure), ofUnits (js "//" ++ o.host ++ portText o.port)) := by
  have htext : ofUnits o.text = ofUnits (schemeText o.secure) ++
      point ':' :: ofUnits (js "//" ++ o.host ++ portText o.port) := by
    have hcolon : js "://" = unit ':' :: js "//" := by decide
    rw [ServerOrigin.text, originText, hcolon]
    simp only [List.append_assoc, List.cons_append]
    rw [ofUnits_append]
    rfl
  have hscheme : point ':' ∉ ofUnits (schemeText o.secure) ∧
      ((ofUnits (schemeText o.secure)).head?.any (inClass isAlpha) &&
        (ofUnits (schemeText o.secure)).all isSchemePoint) = true ∧
      lib.lower (ofUnits (schemeText o.secure)) = ofUnits (schemeText o.secure) := by
    rcases o.schemeText_cases with h | h
    · rw [h, lib.lower_ascii (by decide)]
      decide
    · rw [h, lib.lower_ascii (by decide)]
      decide
  rw [htext, splitScheme, partition_append hscheme.1]
  dsimp only
  rw [if_pos hscheme.2.1, hscheme.2.2]

theorem splitNetloc_text :
    splitNetloc (ofUnits (js "//" ++ o.host ++ portText o.port)) =
      (ofUnits (o.host ++ portText o.port), []) := by
  have hslashes : ofUnits (js "//" ++ o.host ++ portText o.port) =
      point '/' :: point '/' :: ofUnits (o.host ++ portText o.port) := by
    rw [List.append_assoc, ofUnits_append]
    rfl
  have hkeep : ∀ p ∈ ofUnits (o.host ++ portText o.port), (!isNetlocEnd p) = true := by
    intro p hp
    obtain ⟨u, hu, rfl⟩ := List.mem_map.mp hp
    have hend := (netloc_units o u hu).2.1
    simp only [isAuthorityEnd, isSlash, Bool.or_eq_false_iff, decide_eq_false_iff_not] at hend
    simp only [isNetlocEnd, point, Bool.not_eq_true', Bool.or_eq_false_iff, decide_eq_false_iff_not,
      ofUnit_injective.eq_iff]
    exact ⟨⟨hend.1.1.1, hend.1.2⟩, hend.2⟩
  have hprefix : (py "//").isPrefixOf
      (point '/' :: point '/' :: ofUnits (o.host ++ portText o.port)) = true := by
    rw [List.isPrefixOf_iff_prefix]
    exact ⟨_, rfl⟩
  rw [hslashes, splitNetloc, if_pos hprefix]
  simp only [List.drop_succ_cons, List.drop_zero]
  rw [List.takeWhile_eq_self_iff.mpr hkeep, List.dropWhile_eq_nil_iff.mpr hkeep]

/-- Is the host in brackets? -/
theorem host_brackets : o.host = js "[::1]" ∨
    unit '[' ∉ o.host ++ portText o.port ∧ unit ']' ∉ o.host ++ portText o.port := by
  rcases o.hostOk.cases with h | ⟨-, h⟩
  · exact Or.inl h
  · refine Or.inr ⟨?_, ?_⟩ <;> intro hu <;> rcases List.mem_append.mp hu with hu | hu
    · exact absurd (h _ hu) (by decide)
    · exact notMem_portText (by decide) hu
    · exact absurd (h _ hu) (by decide)
    · exact notMem_portText (by decide) hu

theorem netloc_isAscii : ∀ u ∈ o.host ++ portText o.port, isAscii u = true := by
  intro u hu
  refine o.isAsciiText u ?_
  rw [ServerOrigin.text, originText, List.append_assoc]
  exact List.mem_append_right _ hu

/-- `urlsplit` takes an origin apart. -/
theorem urlsplit_text : urlsplit lib (ofUnits o.text) = some (originSplit o) := by
  have hscheme : ∀ u ∈ schemeText o.secure ++ js "://", 0x20 < u := by
    rcases o.schemeText_cases with h | h <;> rw [h] <;> decide
  have hprintable : ∀ u ∈ o.text, 0x20 < u := by
    intro u hu
    rw [ServerOrigin.text, originText, List.append_assoc] at hu
    rcases List.mem_append.mp hu with hu | hu
    · exact hscheme u hu
    · exact (netloc_units o u hu).1
  have hbalanced : (ofUnits (o.host ++ portText o.port)).contains (point '[') =
      (ofUnits (o.host ++ portText o.port)).contains (point ']') := by
    rcases host_brackets o with h | ⟨hopen, hclose⟩
    · rw [h, ofUnits_append, List.contains_eq_mem, List.contains_eq_mem,
        decide_eq_true (List.mem_append_left _ (by decide)),
        decide_eq_true (List.mem_append_left _ (by decide))]
    · have hopen : point '[' ∉ ofUnits (o.host ++ portText o.port) := mt mem_ofUnits.mp hopen
      have hclose : point ']' ∉ ofUnits (o.host ++ portText o.port) := mt mem_ofUnits.mp hclose
      rw [List.contains_eq_mem, List.contains_eq_mem, decide_eq_false hopen, decide_eq_false hclose]
  have hbrackets : ¬ ((ofUnits (o.host ++ portText o.port)).contains (point '[') = true ∧
      lib.checkBrackets (ofUnits (o.host ++ portText o.port)) = false) := by
    rintro ⟨hopen, hchecked⟩
    rcases host_brackets o with h | ⟨hnone, -⟩
    · rw [h, lib.checkBrackets_loopback] at hchecked
      exact Bool.false_ne_true hchecked.symm
    · exact hnone (mem_ofUnits.mp (List.contains_iff_mem.mp hopen))
  rw [urlsplit]
  dsimp only
  rw [clean_ofUnits hprintable, splitScheme_text, splitNetloc_text]
  dsimp only
  rw [if_neg (not_not.mpr hbalanced), if_neg hbrackets,
    if_pos (lib.checkNetloc_ascii (netloc_isAscii o))]
  rfl

/-! ### What is read of an origin -/

theorem partition_port {host : JsString} (h : unit ':' ∉ host) (port : Option Nat) :
    partition (point ':') (ofUnits (host ++ portText port)) =
      (ofUnits host, port.map fun n => ofUnits (digitUnits n)) := by
  have hcolon : point ':' ∉ ofUnits host := mt mem_ofUnits.mp h
  rw [ofUnits_append]
  cases port with
  | none =>
      rw [show ofUnits (portText none) = [] from rfl, List.append_nil]
      exact partition_of_notMem hcolon
  | some n => exact partition_append hcolon

theorem rpartition_netloc :
    rpartition (point '@') (originSplit o).netloc = (none, ofUnits (o.host ++ portText o.port)) :=
  rpartition_of_notMem fun h => (netloc_units o _ (mem_ofUnits.mp h)).2.2 rfl

theorem hostinfo_originSplit :
    (originSplit o).hostinfo = (ofUnits (bareHost o.host), o.port.map fun n => ofUnits (digitUnits n)) := by
  have hdigits : (o.port.map fun n => ofUnits (digitUnits n)).filter (fun port => port ≠ []) =
      o.port.map fun n => ofUnits (digitUnits n) := by
    cases o.port with
    | none => rfl
    | some n =>
        refine if_pos (decide_eq_true ?_)
        exact fun h => digitUnits_ne_nil n (List.map_eq_nil_iff.mp h)
  rw [SplitResult.hostinfo, rpartition_netloc]
  dsimp only
  rcases o.hostOk.cases with h | ⟨-, h⟩
  · -- the loopback address: `[`, the address, `]` and the port
    have hopen : ofUnits (o.host ++ portText o.port) =
        [] ++ point '[' :: (ofUnits (js "::1") ++ point ']' :: ofUnits ([] ++ portText o.port)) := by
      rw [h, ofUnits_append]
      rfl
    rw [hopen, partition_append List.not_mem_nil]
    dsimp only
    rw [partition_append (by decide)]
    dsimp only [Option.getD]
    rw [partition_port List.not_mem_nil, hdigits, bareHost, if_pos h]
  · have hbare : o.host ≠ js "[::1]" := by
      intro heq
      rw [heq] at h
      exact absurd h (by decide)
    have hopen : point '[' ∉ ofUnits (o.host ++ portText o.port) := by
      rcases host_brackets o with hsix | hname
      · exact absurd hsix hbare
      · exact mt mem_ofUnits.mp hname.1
    have hcolon : unit ':' ∉ o.host := fun hu => absurd (h _ hu) (by decide)
    rw [partition_of_notMem hopen]
    dsimp only
    rw [partition_port hcolon, hdigits, bareHost, if_neg hbare]

theorem hostname_originSplit :
    (originSplit o).hostname lib = ofUnits (toLowerCase (bareHost o.host)) := by
  have hname : bareHost o.host = js "::1" ∨ bareHost o.host = o.host ∧
      ∀ u ∈ o.host, isNameUnit u = true := by
    rcases o.hostOk.cases with h | ⟨-, h⟩
    · exact Or.inl (if_pos h)
    · refine Or.inr ⟨if_neg ?_, h⟩
      intro heq
      rw [heq] at h
      exact absurd h (by decide)
  have hpercent : point '%' ∉ ofUnits (bareHost o.host) ∧
      ∀ u ∈ bareHost o.host, isAscii u = true := by
    rcases hname with h | ⟨h, hunits⟩
    · rw [h]
      decide
    · rw [h]
      refine ⟨mt mem_ofUnits.mp fun hu => absurd (hunits _ hu) (by decide), ?_⟩
      exact fun u hu => isAscii_of_isNameUnit (hunits u hu)
  rw [SplitResult.hostname, hostinfo_originSplit]
  dsimp only
  rw [partition_of_notMem hpercent.1, lib.lower_ascii hpercent.2]
  exact List.append_nil _

theorem port_originSplit : (originSplit o).port = some o.port := by
  rw [SplitResult.port, hostinfo_originSplit]
  cases hp : o.port with
  | none => rfl
  | some n =>
      have hall : (ofUnits (digitUnits n)).all (inClass isDigit) = true := by
        have hascii : ∀ u ∈ digitUnits n, isAscii u = true := fun u hu =>
          isAscii_of_lt (by have := isDigit_bounds (digitUnits_isDigit n u hu); omega)
        rw [all_inClass hascii, List.all_eq_true]
        exact digitUnits_isDigit n
      simp only [Option.map_some]
      rw [if_pos hall, units_ofUnits, digitsValue_digitUnits, if_pos (o.portOk n hp).2.1]

/-! ### The checks, on ASCII -/

variable {lib}

theorem labelsOf_ofUnits (t : JsString) :
    labelsOf (ofUnits t) = (HuginAgent.labelsOf t).map ofUnits :=
  splitAll_map ofUnit_injective t

theorem isAscii_of_mem_labelsOf {t : JsString} (h : ∀ u ∈ t, isAscii u = true) :
    ∀ label ∈ HuginAgent.labelsOf t, ∀ u ∈ label, isAscii u = true :=
  fun label hlabel u hu => h u ((mem_splitAll t u).mpr (Or.inl ⟨label, hlabel, hu⟩))

theorem all_labelsOf {p : PyString → Bool} {q : JsString → Bool} {t : JsString}
    (h : ∀ u ∈ t, isAscii u = true)
    (heq : ∀ {label : JsString}, (∀ u ∈ label, isAscii u = true) → p (ofUnits label) = q label) :
    (labelsOf (ofUnits t)).all p = (HuginAgent.labelsOf t).all q := by
  rw [labelsOf_ofUnits, List.all_map, Bool.eq_iff_iff, List.all_eq_true, List.all_eq_true]
  refine forall₂_congr fun label hlabel => ?_
  rw [Function.comp_apply, heq (isAscii_of_mem_labelsOf h label hlabel)]

theorem isOctetText_ofUnits {t : JsString} (h : ∀ u ∈ t, isAscii u = true) :
    isOctetText lib (ofUnits t) = HuginAgent.isOctetText t := by
  have hdecimal : (ofUnits t).all lib.isDecimal = t.all isDigit := by
    induction t with
    | nil => rfl
    | cons u t ih =>
        obtain ⟨hu, ht⟩ := List.forall_mem_cons.mp h
        rw [ofUnits, List.map_cons, List.all_cons, List.all_cons, lib.isDecimal_ascii hu]
        exact congrArg _ (ih ht)
  rw [isOctetText, HuginAgent.isOctetText, hdecimal, ofUnits, List.length_map]

theorem isIpv4Text_ofUnits {t : JsString} (h : ∀ u ∈ t, isAscii u = true) :
    isIpv4Text lib (ofUnits t) = HuginAgent.isIpv4Text t := by
  rw [isIpv4Text, HuginAgent.isIpv4Text, all_labelsOf h isOctetText_ofUnits, labelsOf_ofUnits,
    List.length_map]

theorem isDnsLabel_ofUnits {t : JsString} (h : ∀ u ∈ t, isAscii u = true) :
    isDnsLabel (ofUnits t) = HuginAgent.isDnsLabel t := by
  have hhead : (ofUnits t).head?.any (inClass isAlnum) = t.head?.any isAlnum := by
    cases t with
    | nil => rfl
    | cons u t => exact inClass_ofUnit (h u List.mem_cons_self)
  have hlast : (ofUnits t).getLast?.any (inClass isAlnum) = t.getLast?.any isAlnum := by
    rw [ofUnits, List.getLast?_map]
    cases hl : t.getLast? with
    | none => rfl
    | some u => exact inClass_ofUnit (h u (List.mem_of_getLast? hl))
  rw [isDnsLabel, HuginAgent.isDnsLabel, all_inClass h, hhead, hlast, ofUnits, List.length_map]

/-- The host as `displayHost` shows it. -/
def shownHost (t : JsString) : JsString :=
  if unit ':' ∈ t then unit '[' :: (t ++ [unit ']']) else t

theorem displayHost_ofUnits (t : JsString) : displayHost (ofUnits t) = ofUnits (shownHost t) := by
  by_cases h : unit ':' ∈ t
  · have hcolon : (ofUnits t).contains (point ':') = true :=
      List.contains_iff_mem.mpr (mem_ofUnits.mpr h)
    rw [displayHost, if_pos hcolon, shownHost, if_pos h, ← List.cons_append, ← List.cons_append,
      ofUnits_append]
    rfl
  · have hcolon : ¬ (ofUnits t).contains (point ':') = true :=
      fun hc => h (mem_ofUnits.mp (List.contains_iff_mem.mp hc))
    rw [displayHost, if_neg hcolon, shownHost, if_neg h]

theorem not_isIpv4Text {host : JsString} {u : UInt16} (hu : u ∈ host) (h : isNameUnit u = false) :
    HuginAgent.isIpv4Text host = false := by
  refine Bool.eq_false_iff.mpr fun hfour => ?_
  rw [isNameUnit_of_ipv4 hfour u hu] at h
  exact Bool.false_ne_true h.symm

/-- Both sides mean the same by loopback. -/
theorem isLoopback_ofUnits {t : JsString} (h : ∀ u ∈ t, isAscii u = true) :
    isLoopback lib (ofUnits t) = HuginAgent.isLoopback (shownHost t) := by
  have hhead : ((labelsOf (ofUnits t)).head? = some (py "127")) ↔
      (HuginAgent.labelsOf t).head? = some (js "127") := by
    rw [labelsOf_ofUnits, List.head?_map, show some (py "127") = (some (js "127")).map ofUnits from rfl]
    exact (Option.map_injective ofUnits_injective).eq_iff
  have hfour : isLoopbackV4 lib (ofUnits t) = HuginAgent.isLoopbackV4 (shownHost t) := by
    by_cases hcolon : unit ':' ∈ t
    · rw [isLoopbackV4, HuginAgent.isLoopbackV4, isIpv4Text_ofUnits h, shownHost, if_pos hcolon,
        not_isIpv4Text hcolon (by decide), not_isIpv4Text List.mem_cons_self (by decide),
        Bool.false_and, Bool.false_and]
    · rw [isLoopbackV4, HuginAgent.isLoopbackV4, isIpv4Text_ofUnits h, shownHost, if_neg hcolon]
      exact congrArg _ (decide_eq_decide.mpr hhead)
  rw [isLoopback, HuginAgent.isLoopback, hfour, displayHost_ofUnits, py, py]
  simp only [ofUnits_injective.eq_iff]

/-! ### The accepted origins -/

variable {o}

theorem shownHost_bareHost : shownHost (toLowerCase (bareHost o.host)) = toLowerCase o.host := by
  rcases o.hostOk.cases with h | ⟨-, h⟩
  · rw [h]
    decide
  · have hbare : o.host ≠ js "[::1]" := by
      intro heq
      rw [heq] at h
      exact absurd h (by decide)
    have hcolon : unit ':' ∉ toLowerCase o.host := by
      intro hu
      obtain ⟨v, hv, hlow⟩ := List.mem_map.mp hu
      exact forall_isNameUnit (p := fun v => (if 65 ≤ v && v ≤ 90 then v + 32 else v) ≠ unit ':')
        (by decide) (h v hv) hlow
    rw [bareHost, if_neg hbare, shownHost, if_neg hcolon]

/-- The text of an origin is written again as it was read, with the host in lower case. -/
theorem displayHost_hostname :
    displayHost ((originSplit o).hostname lib) = ofUnits (toLowerCase o.host) := by
  rw [hostname_originSplit, displayHost_ofUnits, shownHost_bareHost]

/-- The host that is read is the loopback address, or all of a name. -/
theorem readHost_cases (hlower : toLowerCase o.host = o.host) :
    toLowerCase (bareHost o.host) = js "::1" ∧ o.host = js "[::1]" ∨
      toLowerCase (bareHost o.host) = o.host ∧ ∀ u ∈ o.host, isNameUnit u = true := by
  rcases o.hostOk.cases with h | ⟨-, h⟩
  · refine Or.inl ⟨?_, h⟩
    rw [h]
    decide
  · refine Or.inr ⟨?_, h⟩
    rw [bareHost, if_neg ?_, hlower]
    intro heq
    rw [heq] at h
    exact absurd h (by decide)

/-- The checks let an origin in lower case through. -/
theorem canonicalizeSplit_origin (hlower : toLowerCase o.host = o.host) :
    canonicalizeSplit lib (originSplit o) o.port (ofUnits o.text) = some (ofUnits o.text) := by
  have hcases := readHost_cases hlower
  have hshown := (shownHost_bareHost (o := o)).trans hlower
  have hhost := hostname_originSplit lib o
  generalize toLowerCase (bareHost o.host) = t at hcases hshown hhost
  have hunits : ∀ u ∈ t, isAscii u = true ∧ u ≠ unit '%' := by
    rcases hcases with ⟨rfl, -⟩ | ⟨rfl, hname⟩
    · decide
    · intro u hu
      exact forall_isNameUnit (p := fun u => isAscii u = true ∧ u ≠ unit '%') (by decide)
        (hname u hu)
  have hascii : ∀ u ∈ t, isAscii u = true := fun u hu => (hunits u hu).1
  have hloop : isLoopback lib (ofUnits t) = HuginAgent.isLoopback o.host := by
    rw [isLoopback_ofUnits hascii, hshown]
  have hscheme : ¬ ((originSplit o).scheme ≠ py "wss" ∧ (originSplit o).scheme ≠ py "ws") := by
    rintro ⟨hwss, hws⟩
    rcases o.schemeText_cases with h | h
    · exact hwss (congrArg ofUnits h)
    · exact hws (congrArg ofUnits h)
  have hempty : ofUnits t ≠ [] := by
    intro h
    have ht : t = [] := List.map_eq_nil_iff.mp h
    rcases hcases with ⟨hsix, -⟩ | ⟨heq, -⟩
    · rw [ht] at hsix
      exact absurd hsix (by decide)
    · exact o.hostOk.isHostText.ne_nil (heq.symm.trans ht)
  have hws : ¬ ((originSplit o).scheme = py "ws" ∧ isLoopback lib (ofUnits t) = false) := by
    rintro ⟨hws, hnot⟩
    rw [hloop] at hnot
    have hsecure : schemeText o.secure = js "ws" := ofUnits_injective hws
    rw [(o.hostOk.named hnot).1] at hsecure
    exact absurd hsecure (by decide)
  have huser : ¬ ((originSplit o).username ≠ [] ∨ (originSplit o).password ≠ []) := by
    rw [SplitResult.username, SplitResult.password, rpartition_netloc]
    exact fun h => h.elim (fun h => h rfl) (fun h => h rfl)
  have hquery : ¬ ((originSplit o).query ≠ [] ∨ (originSplit o).fragment ≠ []) :=
    fun h => h.elim (fun h => h rfl) (fun h => h rfl)
  have hpath : ¬ ((originSplit o).path ≠ [] ∧ (originSplit o).path ≠ py "/") := fun h => h.1 rfl
  have hzero : o.port ≠ some 0 := fun h => absurd (o.portOk 0 h).1 (by omega)
  have hdot : (ofUnits t).getLast? ≠ some (point '.') := by
    intro h
    rw [ofUnits, List.getLast?_map] at h
    obtain ⟨u, hu, hpoint⟩ := Option.map_eq_some_iff.mp h
    obtain rfl := ofUnit_injective hpoint
    rcases hcases with ⟨rfl, -⟩ | ⟨rfl, -⟩
    · exact absurd hu (by decide)
    · exact o.hostOk.getLast?_ne hu
  have hpercent : ¬ (ofUnits t).contains (point '%') = true :=
    fun h => (hunits _ (mem_ofUnits.mp (List.contains_iff_mem.mp h))).2 rfl
  have haddress : ¬ (((ofUnits t).contains (point ':') = true ∨ isIpv4Text lib (ofUnits t) = true) ∧
      isLoopback lib (ofUnits t) = false) := by
    rw [hloop, isIpv4Text_ofUnits hascii]
    rintro ⟨haddress, hnot⟩
    rcases hcases with ⟨-, hsix⟩ | ⟨rfl, hname⟩
    · rw [hsix] at hnot
      exact absurd hnot (by decide)
    · rcases haddress with hcolon | hfour
      · exact absurd (hname _ (mem_ofUnits.mp (List.contains_iff_mem.mp hcolon))) (by decide)
      · rw [(o.hostOk.named hnot).2.1] at hfour
        exact Bool.false_ne_true hfour
  have hdns : ¬ (isLoopback lib (ofUnits t) = false ∧
      (labelsOf (ofUnits t)).all isDnsLabel = false) := by
    rw [hloop, all_labelsOf hascii isDnsLabel_ofUnits]
    rintro ⟨hnot, hlabels⟩
    rcases hcases with ⟨-, hsix⟩ | ⟨rfl, -⟩
    · rw [hsix] at hnot
      exact absurd hnot (by decide)
    · rw [(o.hostOk.named hnot).2.2] at hlabels
      exact Bool.false_ne_true hlabels.symm
  have hdefault : o.port ≠ some (if (originSplit o).scheme = py "wss" then 443 else 80) := by
    intro h
    refine (o.portOk _ h).2.2 ?_
    have hiff : (originSplit o).scheme = py "wss" ↔ schemeText o.secure = js "wss" :=
      ofUnits_injective.eq_iff
    simp only [hiff]
    rfl
  have htext : (originSplit o).scheme ++ py "://" ++ displayHost (ofUnits t) ++
      ofUnits (portText o.port) = ofUnits o.text := by
    rw [displayHost_ofUnits, hshown, ServerOrigin.text, originText, ofUnits_append, ofUnits_append,
      ofUnits_append]
    rfl
  unfold canonicalizeSplit
  dsimp only
  rw [hhost, if_neg hscheme, if_neg hempty, isAscii_ofUnits hascii, if_neg Bool.noConfusion,
    if_neg hws, if_neg huser, if_neg hquery, if_neg hpath, if_neg hzero, if_neg hdot,
    if_neg hpercent, if_neg haddress, if_neg hdns, if_neg hdefault, htext, if_neg (not_not.mpr rfl)]

theorem port_le {u : SplitResult} {port : Option Nat} (h : u.port = some port) :
    ∀ n ∈ port, n ≤ 65535 := by
  rw [SplitResult.port] at h
  split at h
  · obtain rfl := Option.some.inj h
    exact nofun
  · obtain ⟨-, h⟩ := Option.ite_none_right_eq_some.mp h
    obtain ⟨hle, h⟩ := Option.ite_none_right_eq_some.mp h
    obtain rfl := Option.some.inj h
    rintro n hn
    obtain rfl := Option.some.inj hn
    exact hle

/-- What the checks let through is the text of an origin. -/
theorem exists_origin_of_canonicalizeSplit {u : SplitResult} {port : Option Nat}
    {inp result : PyString} (hport : ∀ n ∈ port, n ≤ 65535)
    (h : canonicalizeSplit lib u port inp = some result) :
    result = inp ∧ ∃ o : ServerOrigin, inp = ofUnits o.text ∧
      displayHost (u.hostname lib) = ofUnits o.host := by
  unfold canonicalizeSplit at h
  dsimp only at h
  obtain ⟨hscheme, h⟩ := Option.ite_none_left_eq_some.mp h
  obtain ⟨-, h⟩ := Option.ite_none_left_eq_some.mp h
  obtain ⟨hascii, h⟩ := Option.ite_none_left_eq_some.mp h
  obtain ⟨hws, h⟩ := Option.ite_none_left_eq_some.mp h
  obtain ⟨-, h⟩ := Option.ite_none_left_eq_some.mp h
  obtain ⟨-, h⟩ := Option.ite_none_left_eq_some.mp h
  obtain ⟨-, h⟩ := Option.ite_none_left_eq_some.mp h
  obtain ⟨hzero, h⟩ := Option.ite_none_left_eq_some.mp h
  obtain ⟨-, h⟩ := Option.ite_none_left_eq_some.mp h
  obtain ⟨-, h⟩ := Option.ite_none_left_eq_some.mp h
  obtain ⟨haddress, h⟩ := Option.ite_none_left_eq_some.mp h
  obtain ⟨hdns, h⟩ := Option.ite_none_left_eq_some.mp h
  obtain ⟨hdefault, h⟩ := Option.ite_none_left_eq_some.mp h
  obtain ⟨htext, h⟩ := Option.ite_none_left_eq_some.mp h
  obtain rfl := Option.some.inj h
  obtain ⟨t, ht, hhost⟩ := exists_units_of_isAscii (Bool.not_eq_false _ ▸ hascii)
  rw [hhost] at hws haddress hdns htext ⊢
  rw [isLoopback_ofUnits ht] at hws haddress hdns
  rw [isIpv4Text_ofUnits ht] at haddress
  rw [all_labelsOf ht isDnsLabel_ofUnits] at hdns
  obtain ⟨secure, hsecure⟩ : ∃ secure, u.scheme = ofUnits (schemeText secure) := by
    by_cases hwss : u.scheme = py "wss"
    · exact ⟨true, hwss⟩
    · refine ⟨false, ?_⟩
      by_contra hne
      exact hscheme ⟨hwss, hne⟩
  have hnamed : IsOriginHost secure (shownHost t) := by
    refine ⟨fun hnot => ?_⟩
    have hcolon : unit ':' ∉ t := fun hu =>
      haddress ⟨Or.inl (List.contains_iff_mem.mpr (mem_ofUnits.mpr hu)), hnot⟩
    have hshown : shownHost t = t := if_neg hcolon
    refine ⟨?_, ?_, ?_⟩
    · cases secure with
      | true => rfl
      | false => exact absurd ⟨hsecure, hnot⟩ hws
    · rw [hshown]
      exact Bool.eq_false_iff.mpr fun hfour => haddress ⟨Or.inr hfour, hnot⟩
    · rw [hshown]
      cases hall : (HuginAgent.labelsOf t).all HuginAgent.isDnsLabel with
      | true => rfl
      | false => exact absurd ⟨hnot, hall⟩ hdns
  have hports : ∀ n ∈ port, IsOriginPort secure n := by
    intro n hn
    obtain rfl : port = some n := hn
    refine ⟨Nat.pos_of_ne_zero fun h => hzero (congrArg some h), hport n rfl, ?_⟩
    intro h
    refine hdefault (congrArg some (h.trans ?_))
    rw [hsecure]
    cases secure <;> rfl
  refine ⟨not_not.mp htext, ⟨secure, shownHost t, port, hnamed, hports⟩, ?_, displayHost_ofUnits t⟩
  rw [← not_not.mp htext, ServerOrigin.text, originText, ofUnits_append, ofUnits_append, ofUnits_append,
    ← displayHost_ofUnits, ← hsecure]
  rfl

/-- **The accepted texts are the origins with a host in lower case.** -/
theorem canonicalizeServerOrigin_eq_some_iff {inp result : PyString} :
    canonicalizeServerOrigin lib inp = some result ↔
      result = inp ∧ ∃ o : ServerOrigin, inp = ofUnits o.text ∧ toLowerCase o.host = o.host := by
  constructor
  · intro h
    rw [canonicalizeServerOrigin] at h
    split at h
    · exact nomatch h
    · rename_i u hsplit
      split at h
      · exact nomatch h
      · rename_i port hport
        obtain ⟨hresult, o, rfl, hhost⟩ := exists_origin_of_canonicalizeSplit (port_le hport) h
        refine ⟨hresult, o, rfl, ?_⟩
        rw [urlsplit_text] at hsplit
        obtain rfl := Option.some.inj hsplit
        rw [displayHost_hostname] at hhost
        exact ofUnits_injective hhost
  · rintro ⟨rfl, o, rfl, hlower⟩
    rw [canonicalizeServerOrigin, urlsplit_text]
    dsimp only
    rw [port_originSplit]
    exact canonicalizeSplit_origin hlower

end Py

end HuginAgent
