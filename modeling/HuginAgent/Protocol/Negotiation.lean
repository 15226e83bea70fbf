/-
Which version is negotiated, against the rules for it.

The rules speak of the prerelease part of a version, what comes after its first hyphen, and of its
major number.  The code splits at every hyphen and takes the second piece, which is empty where the
prerelease part begins with a hyphen and then counts as none, and it compares the digits of the
majors.  So the two part where an entry comes first that is taken by one of them only
(`negotiates_iff`).
-/
import HuginAgent.Protocol.Inbound
import HuginAgent.Protocol.Transcript

namespace HuginAgent

/-! ### The rules -/

def hyphen : UInt16 := unit '-'

/-- What comes after the core and a hyphen. -/
def prerelease (v : JsString) : Option JsString :=
  match v.dropWhile fun u => u ≠ hyphen with
  | [] => none
  | _ :: pre => some pre

/-- The digits of the major number. -/
def majorDigits (v : JsString) : JsString := v.takeWhile isDigit

def majorNumber (v : JsString) : Nat := digitsValue (majorDigits v)

/-- `v` may be negotiated for an agent of this version. -/
def Negotiable (agentVersion v : JsString) : Prop :=
  isSemVer agentVersion = true ∧ isSemVer v = true ∧
    if (prerelease agentVersion).isSome then v = agentVersion
    else prerelease v = none ∧ majorNumber v = majorNumber agentVersion

instance (agentVersion v : JsString) : Decidable (Negotiable agentVersion v) :=
  inferInstanceAs (Decidable (_ ∧ _ ∧ _))

/-- What is negotiated is the first version of the list that may be, and none is refused. -/
structure NegotiatesByRules (agentVersion : JsString) (supported : List JsString) : Prop where
  ok : ∀ v, negotiateVersion agentVersion supported = some v →
    ∃ before after, supported = before ++ v :: after ∧ Negotiable agentVersion v ∧
      ∀ w ∈ before, ¬ Negotiable agentVersion w
  refused : negotiateVersion agentVersion supported = none ↔
    ∀ v ∈ supported, ¬ Negotiable agentVersion v

/-! ### Where the code follows them -/

/-- The prerelease part begins with a hyphen. -/
def HyphenLed (v : JsString) : Prop := ∃ rest, prerelease v = some (hyphen :: rest)

/-- An entry that the code takes or that the rules take, for an agent whose version the code takes
for a stable one. -/
def Comes (agentVersion v : JsString) : Prop :=
  isSemVer v = true ∧
    ((prerelease v = none ∨ HyphenLed v) ∧ majorDigits v = majorDigits agentVersion ∨
      prerelease agentVersion = none ∧ prerelease v = none ∧
        majorNumber v = majorNumber agentVersion)

/-- The first entry that comes is one for both. -/
def FirstIsRight (agentVersion : JsString) (supported : List JsString) : Prop :=
  ∀ before v after, supported = before ++ v :: after → (∀ w ∈ before, ¬ Comes agentVersion w) →
    Comes agentVersion v →
      if (prerelease agentVersion).isSome then v = agentVersion
      else prerelease v = none ∧ majorDigits v = majorDigits agentVersion

/-! ### The parts of a version -/

section

variable {v : JsString}

theorem isSemVer_parts (h : isSemVer v = true) :
    ∃ a b c tail, Grammar.Digits isDigit a ∧ Grammar.Digits isDigit b ∧ Grammar.Digits isDigit c ∧
      Grammar.isTail isPreUnit hyphen tail = true ∧
      v = a ++ unit '.' :: (b ++ unit '.' :: (c ++ tail)) := by
  rw [isSemVer_eq, Bool.and_eq_true, Grammar.isVersion_iff (by decide) (by decide)] at h
  exact h.2

theorem ne_of_isDigit {u w : UInt16} (h : isDigit u = true) (hw : isDigit w = false) : u ≠ w := by
  rintro rfl
  rw [h] at hw
  exact Bool.false_ne_true hw.symm

/-- The core has no hyphen, and the prerelease part is what the tail has. -/
theorem prerelease_cases (h : isSemVer v = true) :
    (prerelease v = none ∧ hyphen ∉ v) ∨
      ∃ core pre, hyphen ∉ core ∧ pre ≠ [] ∧ v = core ++ hyphen :: pre ∧ prerelease v = some pre := by
  obtain ⟨a, b, c, tail, ha, hb, hc, htail, rfl⟩ := isSemVer_parts h
  have hdigits : ∀ {s : JsString}, Grammar.Digits isDigit s → ∀ u ∈ s, u ≠ hyphen :=
    fun hs u hu => ne_of_isDigit (hs.2 u hu) (by decide)
  have hcore : ∀ u ∈ a ++ unit '.' :: (b ++ unit '.' :: c), u ≠ hyphen := by
    simp only [List.forall_mem_append, List.forall_mem_cons]
    exact ⟨hdigits ha, by decide, hdigits hb, by decide, hdigits hc⟩
  have hsplit : a ++ unit '.' :: (b ++ unit '.' :: (c ++ tail)) =
      (a ++ unit '.' :: (b ++ unit '.' :: c)) ++ tail := by
    simp only [List.append_assoc, List.cons_append]
  have hdrop : (a ++ unit '.' :: (b ++ unit '.' :: (c ++ tail))).dropWhile (fun u => u ≠ hyphen) =
      tail.dropWhile fun u => u ≠ hyphen := by
    rw [hsplit, List.dropWhile_append_of_pos fun u hu => decide_eq_true (hcore u hu)]
  cases tail with
  | nil =>
      refine Or.inl ⟨?_, ?_⟩
      · rw [prerelease, hdrop]
        rfl
      · rw [hsplit, List.append_nil]
        exact fun hmem => hcore _ hmem rfl
  | cons u pre =>
      simp only [Grammar.isTail, Bool.and_eq_true, decide_eq_true_eq] at htail
      obtain rfl : u = hyphen := htail.1.1
      refine Or.inr ⟨_, pre, fun hmem => hcore _ hmem rfl, htail.1.2, hsplit, ?_⟩
      have hstop : (hyphen :: pre).dropWhile (fun u => u ≠ hyphen) = hyphen :: pre :=
        List.dropWhile_cons_of_neg (by decide)
      rw [prerelease, hdrop, hstop]

theorem majorOf_eq (h : isSemVer v = true) : majorOf v = majorDigits v := by
  obtain ⟨a, b, c, tail, ha, -, -, -, rfl⟩ := isSemVer_parts h
  have hnot : unit '.' ∉ a := fun hmem => ne_of_isDigit (ha.2 _ hmem) (w := unit '.') (by decide) rfl
  have hstop : ¬ isDigit (unit '.') = true := by decide
  rw [majorOf, splitAll_append hnot, majorDigits, List.takeWhile_append_of_pos ha.2,
    List.takeWhile_cons_of_neg hstop, List.append_nil]
  rfl

/-- The second piece at hyphens is empty just where there is none or it begins with one. -/
theorem preOf_isNone_iff (h : isSemVer v = true) :
    (preOf v).isNone = true ↔ prerelease v = none ∨ HyphenLed v := by
  rcases prerelease_cases h with ⟨hnone, hnot⟩ | ⟨core, pre, hcore, hne, rfl, hpre⟩
  · have hpieces : splitAll (unit '-') v = [v] := splitAll_of_notMem hnot
    rw [preOf, hpieces]
    exact iff_of_true rfl (Or.inl hnone)
  · rw [preOf, HyphenLed, hpre]
    have hpieces : splitAll (unit '-') (core ++ hyphen :: pre) = core :: splitAll hyphen pre :=
      splitAll_append hcore pre
    rw [hpieces, List.getElem?_cons_succ]
    obtain ⟨u, rest, rfl⟩ := List.exists_cons_of_ne_nil hne
    by_cases hu : u = hyphen
    · subst hu
      have hempty : splitAll hyphen (hyphen :: rest) = [] :: splitAll hyphen rest :=
        splitAll_append List.not_mem_nil rest
      rw [hempty]
      exact iff_of_true rfl (Or.inr ⟨rest, rfl⟩)
    · have hfirst : ∃ piece pieces, splitAll hyphen (u :: rest) = (u :: piece) :: pieces := by
        by_cases hmem : hyphen ∈ u :: rest
        · obtain ⟨line, more, hsplit, hline⟩ := List.eq_append_cons_of_mem hmem
          cases line with
          | nil => exact absurd (List.cons.inj hsplit).1 hu
          | cons w piece =>
              obtain ⟨rfl, -⟩ := List.cons.inj hsplit
              rw [hsplit]
              exact ⟨piece, _, splitAll_append hline more⟩
        · exact ⟨rest, [], splitAll_of_notMem hmem⟩
      obtain ⟨piece, pieces, hfirst⟩ := hfirst
      rw [hfirst]
      refine iff_of_false (fun hc => nomatch hc) ?_
      rintro (hc | ⟨rest', hc⟩)
      · exact nomatch hc
      · exact hu (List.cons.inj (Option.some.inj hc)).1

end

/-! ### Two searches of one list -/

/-- They find the same just where the first entry that either takes is taken by both. -/
theorem find?_eq_find?_iff {α : Type} (p q : α → Bool) (l : List α) :
    l.find? p = l.find? q ↔
      ∀ v, l.find? (fun w => p w || q w) = some v → p v = true ∧ q v = true := by
  induction l with
  | nil => exact iff_of_true rfl fun v hv => nomatch hv
  | cons x l ih =>
      cases hp : p x <;> cases hq : q x
      · have hboth : (p x || q x) = false := by rw [hp, hq]; rfl
        rw [List.find?_cons_of_neg (by rw [hp]; decide), List.find?_cons_of_neg (by rw [hq]; decide),
          List.find?_cons_of_neg (by rw [hboth]; decide), ih]
      · have hfirst : (x :: l).find? (fun w => p w || q w) = some x :=
          List.find?_cons_of_pos (by rw [hp, hq]; rfl)
        rw [List.find?_cons_of_neg (by rw [hp]; decide), List.find?_cons_of_pos hq, hfirst]
        refine iff_of_false (fun hc => ?_) fun hc => ?_
        · exact Bool.false_ne_true (hp.symm.trans (List.find?_some hc))
        · exact Bool.false_ne_true (hp.symm.trans (hc x rfl).1)
      · have hfirst : (x :: l).find? (fun w => p w || q w) = some x :=
          List.find?_cons_of_pos (by rw [hp, hq]; rfl)
        rw [List.find?_cons_of_pos hp, List.find?_cons_of_neg (by rw [hq]; decide), hfirst]
        refine iff_of_false (fun hc => ?_) fun hc => ?_
        · exact Bool.false_ne_true (hq.symm.trans (List.find?_some hc.symm))
        · exact Bool.false_ne_true (hq.symm.trans (hc x rfl).2)
      · have hfirst : (x :: l).find? (fun w => p w || q w) = some x :=
          List.find?_cons_of_pos (by rw [hp, hq]; rfl)
        rw [List.find?_cons_of_pos hp, List.find?_cons_of_pos hq, hfirst]
        refine iff_of_true rfl fun v hv => ?_
        obtain rfl := Option.some.inj hv
        exact ⟨hp, hq⟩

/-! ### Both as searches -/

/-- The code takes the entry. -/
def takes (agentVersion v : JsString) : Bool :=
  isSemVer v && if (preOf agentVersion).isSome then decide (v = agentVersion)
    else (preOf v).isNone && decide (majorOf v = majorOf agentVersion)

section

variable {agentVersion : JsString} {supported : List JsString}

theorem negotiateVersion_eq_find (h : isSemVer agentVersion = true) :
    negotiateVersion agentVersion supported = supported.find? (takes agentVersion) := by
  rw [negotiateVersion, if_neg (by rw [h]; decide)]
  by_cases hpre : (preOf agentVersion).isSome = true
  · simp only [hpre, if_true, List.find?_filter]
    congr 1
    funext v
    rw [takes, if_pos hpre, Bool.decide_and, Bool.decide_eq_true, Bool.decide_eq_true]
  · simp only [hpre, if_false, Bool.false_eq_true, List.find?_filter]
    congr 1
    funext v
    rw [takes, if_neg hpre, Bool.decide_and, Bool.decide_eq_true, Bool.decide_eq_true]

theorem negotiatesByRules_iff_find :
    NegotiatesByRules agentVersion supported ↔
      negotiateVersion agentVersion supported =
        supported.find? fun v => decide (Negotiable agentVersion v) := by
  refine ⟨fun ⟨hok, hrefused⟩ => ?_, fun h => ⟨fun v hv => ?_, ?_⟩⟩
  · cases hv : negotiateVersion agentVersion supported with
    | none =>
        refine (List.find?_eq_none.mpr fun v hmem => ?_).symm
        rw [decide_eq_true_eq]
        exact hrefused.mp hv v hmem
    | some v =>
        obtain ⟨before, after, hsplit, hneg, hbefore⟩ := hok v hv
        refine Eq.symm (List.find?_eq_some_iff_append.mpr
          ⟨decide_eq_true hneg, before, after, hsplit, fun w hw => ?_⟩)
        rw [Bool.not_eq_true', decide_eq_false_iff_not]
        exact hbefore w hw
  · obtain ⟨hneg, before, after, hsplit, hbefore⟩ := List.find?_eq_some_iff_append.mp (h.symm.trans hv)
    refine ⟨before, after, hsplit, of_decide_eq_true hneg, fun w hw => ?_⟩
    have hw' := hbefore w hw
    rwa [Bool.not_eq_true', decide_eq_false_iff_not] at hw'
  · rw [h, List.find?_eq_none]
    simp only [decide_eq_true_eq]

end

/-! ### The main result -/

section

variable {agentVersion : JsString}

theorem preOf_isSome_iff (h : isSemVer agentVersion = true) :
    (preOf agentVersion).isSome = true ↔
      ∃ pre, prerelease agentVersion = some pre ∧ pre.head? ≠ some hyphen := by
  have hnot : (preOf agentVersion).isSome = true ↔ ¬ (preOf agentVersion).isNone = true := by
    cases preOf agentVersion with
    | none => exact iff_of_false (fun hc => nomatch hc) fun hc => hc rfl
    | some pre => exact iff_of_true rfl fun hc => nomatch hc
  rw [hnot, preOf_isNone_iff h]
  cases hpre : prerelease agentVersion with
  | none => exact iff_of_false (fun hc => hc (Or.inl rfl)) fun ⟨pre, hc, _⟩ => nomatch hc
  | some pre =>
      have hled : HyphenLed agentVersion ↔ pre.head? = some hyphen := by
        rw [HyphenLed, hpre]
        cases pre with
        | nil => exact iff_of_false (fun ⟨rest, hc⟩ => nomatch hc) fun hc => nomatch hc
        | cons u rest =>
            refine ⟨fun ⟨rest', hc⟩ => ?_, fun hc => ⟨rest, ?_⟩⟩
            · rw [(List.cons.inj (Option.some.inj hc)).1]
              rfl
            · rw [Option.some.inj (hc : some u = some hyphen)]
      rw [hled]
      refine ⟨fun hc => ⟨pre, rfl, fun hhead => hc (Or.inr hhead)⟩, ?_⟩
      rintro ⟨pre', hpre', hhead⟩ (hc | hc)
      · exact nomatch hc
      · rw [Option.some.inj hpre'] at hc
        exact hhead hc

variable {v : JsString}

/-- What the code takes for an agent whose version it takes for a stable one. -/
theorem takes_iff (h : isSemVer agentVersion = true) (hstable : ¬ (preOf agentVersion).isSome = true) :
    takes agentVersion v = true ↔ isSemVer v = true ∧
      (prerelease v = none ∨ HyphenLed v) ∧ majorDigits v = majorDigits agentVersion := by
  rw [takes, if_neg hstable, Bool.and_eq_true, Bool.and_eq_true, decide_eq_true_eq]
  refine and_congr_right fun hv => ?_
  rw [preOf_isNone_iff hv, majorOf_eq hv, majorOf_eq h]

theorem stable_cases (h : isSemVer agentVersion = true)
    (hstable : ¬ (preOf agentVersion).isSome = true) :
    prerelease agentVersion = none ∨
      HyphenLed agentVersion ∧ (prerelease agentVersion).isSome = true := by
  have hnone : (preOf agentVersion).isNone = true := by
    cases hpre : preOf agentVersion with
    | none => rfl
    | some pre =>
        rw [hpre] at hstable
        exact absurd rfl hstable
  refine ((preOf_isNone_iff h).mp hnone).imp_right fun hled => ⟨hled, ?_⟩
  obtain ⟨rest, hrest⟩ := hled
  rw [hrest]
  rfl

theorem takes_or_negotiable_iff (h : isSemVer agentVersion = true)
    (hstable : ¬ (preOf agentVersion).isSome = true) :
    (takes agentVersion v = true ∨ Negotiable agentVersion v) ↔ Comes agentVersion v := by
  rw [takes_iff h hstable, Comes, Negotiable]
  rcases stable_cases h hstable with hnone | ⟨hled, hsome⟩
  · rw [hnone, if_neg (by decide)]
    constructor
    · rintro (⟨hv, htaken⟩ | ⟨-, hv, hrule⟩)
      · exact ⟨hv, Or.inl htaken⟩
      · exact ⟨hv, Or.inr ⟨rfl, hrule⟩⟩
    · rintro ⟨hv, htaken | ⟨-, hrule⟩⟩
      · exact Or.inl ⟨hv, htaken⟩
      · exact Or.inr ⟨h, hv, hrule⟩
  · rw [if_pos hsome]
    constructor
    · rintro (⟨hv, htaken⟩ | ⟨-, hv, rfl⟩)
      · exact ⟨hv, Or.inl htaken⟩
      · exact ⟨hv, Or.inl ⟨Or.inr hled, rfl⟩⟩
    · rintro ⟨hv, htaken | ⟨hnone, -⟩⟩
      · exact Or.inl ⟨hv, htaken⟩
      · rw [hnone] at hsome
        exact nomatch hsome

/-- An entry that comes is one for both where it is the agent's own, or has no prerelease part and
the same digits. -/
theorem takes_and_negotiable_iff (h : isSemVer agentVersion = true)
    (hstable : ¬ (preOf agentVersion).isSome = true) (hcomes : Comes agentVersion v) :
    (takes agentVersion v = true ∧ Negotiable agentVersion v) ↔
      if (prerelease agentVersion).isSome then v = agentVersion
      else prerelease v = none ∧ majorDigits v = majorDigits agentVersion := by
  rw [takes_iff h hstable, Negotiable]
  rcases stable_cases h hstable with hnone | ⟨hled, hsome⟩
  · rw [hnone, if_neg (by decide), if_neg (by decide)]
    constructor
    · rintro ⟨⟨-, -, hdigits⟩, -, -, hpre, -⟩
      exact ⟨hpre, hdigits⟩
    · rintro ⟨hpre, hdigits⟩
      exact ⟨⟨hcomes.1, Or.inl hpre, hdigits⟩, h, hcomes.1, hpre, by rw [majorNumber, hdigits]; rfl⟩
  · rw [if_pos hsome, if_pos hsome]
    constructor
    · rintro ⟨-, -, -, rfl⟩
      rfl
    · rintro rfl
      exact ⟨⟨h, Or.inr hled, rfl⟩, h, h, rfl⟩

theorem firstIsRight_iff (h : isSemVer agentVersion = true)
    (hstable : ¬ (preOf agentVersion).isSome = true) (supported : List JsString) :
    FirstIsRight agentVersion supported ↔ ∀ v,
      supported.find? (fun w => takes agentVersion w || decide (Negotiable agentVersion w)) = some v →
        takes agentVersion v = true ∧ decide (Negotiable agentVersion v) = true := by
  have hcomes : ∀ w, (takes agentVersion w || decide (Negotiable agentVersion w)) = true ↔
      Comes agentVersion w := by
    intro w
    rw [Bool.or_eq_true, decide_eq_true_eq]
    exact takes_or_negotiable_iff h hstable
  constructor
  · intro hright v hv
    obtain ⟨hfound, before, after, hsplit, hbefore⟩ := List.find?_eq_some_iff_append.mp hv
    rw [decide_eq_true_eq, takes_and_negotiable_iff h hstable ((hcomes v).mp hfound)]
    refine hright before v after hsplit (fun w hw hc => ?_) ((hcomes v).mp hfound)
    have hnot := hbefore w hw
    rw [(hcomes w).mpr hc] at hnot
    exact nomatch hnot
  · intro hfirst before v after hsplit hbefore hv
    have hfound := hfirst v (List.find?_eq_some_iff_append.mpr
      ⟨(hcomes v).mpr hv, before, after, hsplit, fun w hw => ?_⟩)
    · rwa [decide_eq_true_eq, takes_and_negotiable_iff h hstable hv] at hfound
    · rw [Bool.not_eq_true', Bool.eq_false_iff, ne_eq, hcomes]
      exact hbefore w hw

/-- **The version that is negotiated is the one that the rules give just where the agent's version
is malformed or a prerelease whose part does not begin with a hyphen, or else where the first entry
that comes is one for both.** -/
theorem negotiates_iff (agentVersion : JsString) (supported : List JsString) :
    NegotiatesByRules agentVersion supported ↔
      isSemVer agentVersion = false ∨
        (∃ pre, prerelease agentVersion = some pre ∧ pre.head? ≠ some hyphen) ∨
          FirstIsRight agentVersion supported := by
  cases h : isSemVer agentVersion with
  | false =>
      refine iff_of_true ⟨fun v hv => ?_, ?_⟩ (Or.inl rfl)
      · rw [negotiateVersion, if_pos h] at hv
        exact nomatch hv
      · rw [negotiateVersion, if_pos h]
        refine iff_of_true rfl fun v _ hv => ?_
        rw [hv.1] at h
        exact nomatch h
  | true =>
      rw [negotiatesByRules_iff_find, negotiateVersion_eq_find h]
      by_cases hpre : (preOf agentVersion).isSome = true
      · obtain ⟨pre, hsome, hhead⟩ := (preOf_isSome_iff h).mp hpre
        refine iff_of_true ?_ (Or.inr (Or.inl ⟨pre, hsome, hhead⟩))
        congr 1
        funext v
        have hrule : (prerelease agentVersion).isSome = true := by rw [hsome]; rfl
        rw [takes, if_pos hpre, Bool.eq_iff_iff, decide_eq_true_eq, Negotiable, if_pos hrule,
          Bool.and_eq_true, decide_eq_true_eq]
        exact ⟨fun hv => ⟨h, hv⟩, fun hv => hv.2⟩
      · rw [find?_eq_find?_iff, ← firstIsRight_iff h hpre]
        refine ⟨fun hfirst => Or.inr (Or.inr hfirst), ?_⟩
        rintro (hc | hc | hfirst)
        · exact nomatch hc
        · exact absurd ((preOf_isSome_iff h).mpr hc) hpre
        · exact hfirst

/-- A draft whose part begins with a hyphen is negotiated as the stable version. -/
theorem draft_negotiated :
    negotiateVersion (js "1.0.0--x") [js "1.0.0"] = some (js "1.0.0") ∧
      ¬ NegotiatesByRules (js "1.0.0--x") [js "1.0.0"] := by
  have htaken : negotiateVersion (js "1.0.0--x") [js "1.0.0"] = some (js "1.0.0") := by
    decide +kernel
  refine ⟨htaken, fun hrules => ?_⟩
  obtain ⟨before, after, -, hneg, -⟩ := hrules.ok _ htaken
  revert hneg
  decide +kernel

end

end HuginAgent
