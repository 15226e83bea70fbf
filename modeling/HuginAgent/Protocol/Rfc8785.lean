/-
What `jcsCanonicalize` rejects, and what its result is.

RFC 8785 gives a value one form, a text of characters; it is stated here as a relation, with the
members of an object as the permutation that is in order.  A value has the form when its numbers are
finite and its strings, names included, are strings of characters.  The printer looks for a lone
surrogate in the strings that are values, and not in the names: those it hands to `JSON.stringify`,
which escapes them.
-/
import HuginAgent.Js.Chars
import HuginAgent.Protocol.Canonical

namespace HuginAgent

open JsValue

/-! ### The form of a value -/

namespace Rfc8785

/-- A character inside a string. -/
def escaped (c : Char) : List Char :=
  if c = '"' then ['\\', '"']
  else if c = '\\' then ['\\', '\\']
  else if c.toNat = 8 then ['\\', 'b']
  else if c.toNat = 9 then ['\\', 't']
  else if c.toNat = 10 then ['\\', 'n']
  else if c.toNat = 12 then ['\\', 'f']
  else if c.toNat = 13 then ['\\', 'r']
  else if c.toNat < 32 then
    ['\\', 'u', '0', '0', Nat.digitChar (c.toNat / 16), Nat.digitChar (c.toNat % 16)]
  else [c]

def quoted (cs : List Char) : List Char := '"' :: (cs.flatMap escaped ++ ['"'])

def joined (texts : List (List Char)) : List Char := [','].intercalate texts

/-- The members of an object that are written: all but the `undefined` ones. -/
def kept (fields : JsObject) : JsObject := fields.filter fun p => !p.2.isUndefined

mutual

/-- `Form v text`: the text is the canonical form of the value. -/
inductive Form : JsValue → List Char → Prop
  | null : Form .null ['n', 'u', 'l', 'l']
  | yes : Form (.bool true) ['t', 'r', 'u', 'e']
  | no : Form (.bool false) ['f', 'a', 'l', 's', 'e']
  | num {d : Decimal} {text : List Char} : textOf text = d.text → Form (.num (.finite d)) text
  | str (cs : List Char) : Form (.str (textOf cs)) (quoted cs)
  | arr {items : List JsValue} {texts : List (List Char)} :
      Items items texts → Form (.arr items) ('[' :: (joined texts ++ [']']))
  | obj {fields sorted : JsObject} {texts : List (List Char)} :
      sorted.Perm (kept fields) → sorted.Pairwise (fun p q => p.1 < q.1) →
      Members sorted texts → Form (.obj fields) ('\x7b' :: (joined texts ++ ['\x7d']))

/-- The elements of an array; an `undefined` one is written as `null`. -/
inductive Items : List JsValue → List (List Char) → Prop
  | nil : Items [] []
  | cons {v : JsValue} {rest : List JsValue} {text : List Char} {texts : List (List Char)} :
      Form v.element text → Items rest texts → Items (v :: rest) (text :: texts)

inductive Members : JsObject → List (List Char) → Prop
  | nil : Members [] []
  | cons {name : List Char} {v : JsValue} {rest : JsObject} {text : List Char}
      {texts : List (List Char)} :
      Form v text → Members rest texts →
      Members ((textOf name, v) :: rest) ((quoted name ++ ':' :: text) :: texts)

end

end Rfc8785

/-! ### What is in a value -/

/-- `w` is the value itself or a part of it. -/
inductive Occurs (w : JsValue) : JsValue → Prop
  | here : Occurs w w
  | item {items : List JsValue} {v : JsValue} : v ∈ items → Occurs w v → Occurs w (.arr items)
  | field {fields : JsObject} {p : JsString × JsValue} :
      p ∈ fields → Occurs w p.2 → Occurs w (.obj fields)

def HasNonFinite (v : JsValue) : Prop := ∃ n, Occurs (.num n) v ∧ n.isFinite = false

/-- A string that is a value. -/
def HasLoneString (v : JsValue) : Prop := ∃ s, Occurs (.str s) v ∧ hasLoneSurrogate s = true

/-- A name of a field that is kept. -/
def HasLoneKey (v : JsValue) : Prop :=
  ∃ fields : JsObject, Occurs (.obj fields) v ∧
    ∃ p ∈ Rfc8785.kept fields, hasLoneSurrogate p.1 = true

/-- It throws exactly where there is no form, and otherwise gives the form. -/
structure JcsRejectsExactly (v : JsValue) : Prop where
  throws : (∃ e, jcsCanonicalize v = .error e) ↔ HasNonFinite v ∨ HasLoneString v ∨ HasLoneKey v
  form : ∀ t, jcsCanonicalize v = .ok t →
    hasLoneSurrogate t = false ∧ ∃! text, Rfc8785.Form v text ∧ utf8Encode t = utf8Chars text

/-! ### Strings -/

theorem unit_eq_iff {c d : Char} (hc : c.toNat < 0x10000) (hd : d.toNat < 0x10000) :
    unit c = unit d ↔ c = d := by
  rw [← UInt16.toNat_inj, toNat_unit hc, toNat_unit hd, Char.toNat_inj]

theorem unit_eq_ofNat_iff {c : Char} (hc : c.toNat < 0x10000) {u : UInt16} :
    unit c = u ↔ c.toNat = u.toNat := by
  rw [← UInt16.toNat_inj, toNat_unit hc]

theorem unicodeEscape_control : ∀ n < 32,
    unicodeEscape n.toUInt16 =
      textOf ['\\', 'u', '0', '0', Nat.digitChar (n / 16), Nat.digitChar (n % 16)] := by decide

theorem quoteUnit_unit {c : Char} (h : c.toNat < 0x10000) (p : Bool) (rest : JsString) :
    quoteUnit p (unit c) rest = textOf (Rfc8785.escaped c) := by
  obtain ⟨hhigh, hlow⟩ := unit_not_surrogate h
  have hlone : isLone p (unit c) rest = false := by
    rw [isLone, hhigh, hlow, Bool.false_and, Bool.false_and, Bool.or_false]
  have hlt : unit c < 32 ↔ c.toNat < 32 := by
    rw [UInt16.lt_iff_toNat_lt, toNat_unit h]
    rfl
  have hquote := unit_eq_iff (d := '"') h (by decide)
  have hslash := unit_eq_iff (d := '\\') h (by decide)
  have h8 : unit c = 8 ↔ c.toNat = 8 := unit_eq_ofNat_iff h
  have h9 : unit c = 9 ↔ c.toNat = 9 := unit_eq_ofNat_iff h
  have h10 : unit c = 10 ↔ c.toNat = 10 := unit_eq_ofNat_iff h
  have h12 : unit c = 12 ↔ c.toNat = 12 := unit_eq_ofNat_iff h
  have h13 : unit c = 13 ↔ c.toNat = 13 := unit_eq_ofNat_iff h
  simp only [quoteUnit, Rfc8785.escaped, hlone, Bool.or_false, decide_eq_true_eq, hlt, hquote,
    hslash, h8, h9, h10, h12, h13]
  split
  · rfl
  split
  · rfl
  split
  · rfl
  split
  · rfl
  split
  · rfl
  split
  · rfl
  split
  · rfl
  split
  · rename_i hcontrol
    exact unicodeEscape_control c.toNat hcontrol
  · rw [textOf_cons, textOf_nil, List.append_nil, unitsOf_plane h]

theorem quoteFrom_unitsOf (p : Bool) (c : Char) (t : JsString) :
    quoteFrom p (unitsOf c ++ t) = textOf (Rfc8785.escaped c) ++ quoteFrom false t := by
  by_cases h : c.toNat < 0x10000
  · rw [unitsOf_plane h, List.singleton_append, quoteFrom, quoteUnit_unit h,
      (unit_not_surrogate h).1]
  · obtain ⟨high, low, hunits, hhigh, hlow, hnot⟩ := unitsOf_pair h
    have hne : ∀ d : Char, d.toNat < 0x10000 → c ≠ d := fun d hd hc => h (hc ▸ hd)
    have hself : Rfc8785.escaped c = [c] := by
      unfold Rfc8785.escaped
      rw [if_neg (hne _ (by decide)), if_neg (hne _ (by decide)), if_neg (by omega),
        if_neg (by omega), if_neg (by omega), if_neg (by omega), if_neg (by omega),
        if_neg (by omega)]
    have hfirst : quoteUnit p high (low :: t) = [high] := by
      rcases quoteUnit_cases p high (low :: t) with ⟨-, hascii | hlone⟩ | ⟨hself, -⟩
      · rw [not_high_of_ascii hascii] at hhigh
        exact absurd hhigh Bool.false_ne_true
      · rw [isLone, not_low_of_high hhigh, List.head?_cons, Option.any_some, hlow, Bool.not_true,
          Bool.and_false, Bool.false_and, Bool.or_false] at hlone
        exact absurd hlone Bool.false_ne_true
      · exact hself
    rw [hself, textOf_cons, textOf_nil, List.append_nil, hunits, List.cons_append,
      List.singleton_append, quoteFrom, hfirst, hhigh, quoteFrom_low hlow, hnot]
    rfl

theorem quote_textOf (cs : List Char) : quote (textOf cs) = textOf (Rfc8785.quoted cs) := by
  have hfrom : ∀ p, quoteFrom p (textOf cs) = textOf (cs.flatMap Rfc8785.escaped) := by
    induction cs with
    | nil => exact fun _ => rfl
    | cons c cs ih =>
        intro p
        rw [textOf_cons, quoteFrom_unitsOf, ih, List.flatMap_cons, textOf_append]
  rw [quote, hfrom, Rfc8785.quoted, textOf_cons, textOf_append]
  rfl

theorem joinComma_textOf (texts : List (List Char)) :
    joinComma (texts.map textOf) = textOf (Rfc8785.joined texts) := by
  induction texts with
  | nil => rfl
  | cons text rest ih =>
      cases rest with
      | nil => rw [Rfc8785.joined, List.intercalate_singleton]; rfl
      | cons next rest =>
          rw [List.map_cons, List.map_cons, joinComma_cons_cons, ← List.map_cons, ih,
            Rfc8785.joined, Rfc8785.joined, List.intercalate_cons_cons, textOf_append, textOf_append,
            List.append_assoc]
          rfl

/-! ### Parts of a value -/

namespace Rfc8785

theorem mem_kept {fields : JsObject} {p : JsString × JsValue} :
    p ∈ kept fields ↔ p ∈ fields ∧ p.2.isUndefined = false := by
  rw [kept, List.mem_filter, Bool.not_eq_true']

/-- What is asked of a value that is to have a form. -/
structure Clean (v : JsValue) : Prop where
  numbers : ∀ n, Occurs (.num n) v → n.isFinite = true
  strings : ∀ s, Occurs (.str s) v → hasLoneSurrogate s = false
  names : ∀ fields : JsObject, Occurs (.obj fields) v →
    ∀ p ∈ kept fields, hasLoneSurrogate p.1 = false

theorem Clean.part {v w : JsValue} (h : Clean v) (hpart : ∀ u, Occurs u w → Occurs u v) :
    Clean w where
  numbers n hn := h.numbers n (hpart _ hn)
  strings s hs := h.strings s (hpart _ hs)
  names fields hfields := h.names fields (hpart _ hfields)

theorem Clean.item {items : List JsValue} (h : Clean (.arr items)) {v : JsValue} (hv : v ∈ items) :
    Clean v := h.part fun _ => Occurs.item hv

theorem Clean.field {fields : JsObject} (h : Clean (.obj fields)) {p : JsString × JsValue}
    (hp : p ∈ fields) : Clean p.2 := h.part fun _ => Occurs.field hp

theorem clean_iff (v : JsValue) :
    Clean v ↔ ¬ (HasNonFinite v ∨ HasLoneString v ∨ HasLoneKey v) := by
  constructor
  · rintro h (⟨n, hn, hinf⟩ | ⟨s, hs, hlone⟩ | ⟨fields, hfields, p, hp, hlone⟩)
    · rw [h.numbers n hn] at hinf
      exact Bool.false_ne_true hinf.symm
    · rw [h.strings s hs] at hlone
      exact Bool.false_ne_true hlone
    · rw [h.names fields hfields p hp] at hlone
      exact Bool.false_ne_true hlone
  · intro h
    rw [not_or, not_or] at h
    refine ⟨?_, ?_, ?_⟩
    · intro n hn
      exact Bool.of_not_eq_false fun hinf => h.1 ⟨n, hn, hinf⟩
    · intro s hs
      exact Bool.of_not_eq_true fun hlone => h.2.1 ⟨s, hs, hlone⟩
    · intro fields hfields p hp
      exact Bool.of_not_eq_true fun hlone => h.2.2 ⟨fields, hfields, p, hp, hlone⟩

/-! ### The printer gives the form -/

theorem jcsFields_eq_map (fields : JsObject) :
    jcsFields fields = (kept fields).map fun p => (p.1, jcsCanonicalize p.2) := by
  induction fields with
  | nil => rfl
  | cons p rest ih =>
      rw [jcsFields, kept, List.filter_cons]
      by_cases hu : p.2.isUndefined = true
      · rw [if_pos hu, hu, ih]
        rfl
      · rw [if_neg hu, if_pos (by simpa using hu), ih]
        rfl

/-- The kept members in order. -/
theorem sorted_kept {fields : JsObject} (h : fields.keys.Nodup) :
    (sortKeys (kept fields)).Perm (kept fields) ∧
      (sortKeys (kept fields)).Pairwise fun p q => p.1 < q.1 := by
  have : Std.Total fun p q : JsString × JsValue => p.1 ≤ q.1 := ⟨fun p q => total_of (· ≤ ·) p.1 q.1⟩
  have : IsTrans (JsString × JsValue) fun p q => p.1 ≤ q.1 :=
    ⟨fun _ _ _ h h' => trans_of (· ≤ ·) h h'⟩
  have hperm : (sortKeys (kept fields)).Perm (kept fields) := List.perm_insertionSort _ _
  refine ⟨hperm, ?_⟩
  have hkept : (JsObject.keys (kept fields)).Nodup := (List.filter_sublist.map Prod.fst).nodup h
  have hnodup : (JsObject.keys (sortKeys (kept fields))).Nodup :=
    (hperm.map Prod.fst).nodup_iff.mpr hkept
  have hne : (sortKeys (kept fields)).Pairwise fun p q => p.1 ≠ q.1 := List.pairwise_map.mp hnodup
  have hle : (sortKeys (kept fields)).Pairwise fun p q => p.1 ≤ q.1 :=
    List.pairwise_insertionSort _ _
  refine (hle.and hne).imp ?_
  intro p q hpq
  exact (List.le_iff_lt_or_eq.mp hpq.1).resolve_right hpq.2

theorem members_form {o : JsObject}
    (h : ∀ p ∈ o, hasLoneSurrogate p.1 = false ∧
      ∃ text, Form p.2 text ∧ jcsCanonicalize p.2 = .ok (textOf text)) :
    ∃ texts, Members o texts ∧
      memberTexts (o.map fun p => (p.1, jcsCanonicalize p.2)) = .ok (texts.map textOf) := by
  induction o with
  | nil => exact ⟨[], .nil, rfl⟩
  | cons p rest ih =>
      obtain ⟨⟨hlone, text, hform, hjcs⟩, hrest⟩ := List.forall_mem_cons.mp h
      obtain ⟨texts, hmembers, htexts⟩ := ih hrest
      obtain ⟨name, hname⟩ := exists_textOf hlone
      obtain ⟨key, v⟩ := p
      obtain rfl : key = textOf name := hname
      refine ⟨_, .cons hform hmembers, ?_⟩
      have hv : jcsCanonicalize v = .ok (textOf text) := hjcs
      rw [List.map_cons, memberTexts, hv, htexts, List.map_cons, textOf_append, textOf_cons,
        quote_textOf]
      rfl

mutual

/-- **A clean value is printed in its form.** -/
theorem jcs_form : ∀ (v : JsValue), v.wellFormed = true → v.isUndefined = false → Clean v →
    ∃ text, Form v text ∧ jcsCanonicalize v = .ok (textOf text)
  | .undefined, _, hu, _ => nomatch hu
  | .null, _, _, _ => ⟨_, .null, rfl⟩
  | .bool true, _, _, _ => ⟨_, .yes, rfl⟩
  | .bool false, _, _, _ => ⟨_, .no, rfl⟩
  | .num n, _, _, h => by
      have hfin := h.numbers n .here
      cases n with
      | finite d =>
          have hwhole : hasLoneSurrogate d.text = false :=
            sealed_lone (sealed_number (.finite d) hfin)
          obtain ⟨text, htext⟩ := exists_textOf hwhole
          refine ⟨text, .num htext.symm, ?_⟩
          rw [jcsCanonicalize, if_pos hfin, ← htext]
          rfl
      | nan => exact nomatch hfin
      | infinity neg => exact nomatch hfin
  | .str s, _, _, h => by
      have hwhole := h.strings s .here
      obtain ⟨cs, rfl⟩ := exists_textOf hwhole
      refine ⟨_, .str cs, ?_⟩
      rw [jcsCanonicalize, hwhole, if_neg Bool.false_ne_true, quote_textOf]
  | .arr items, hwf, _, h => by
      obtain ⟨texts, hitems, htexts⟩ := items_form items hwf fun v hv => h.item hv
      refine ⟨_, .arr hitems, ?_⟩
      rw [jcsCanonicalize, htexts, textOf_cons, textOf_append, ← joinComma_textOf]
      rfl
  | .obj fields, hwf, _, h => by
      obtain ⟨hnodup, hwell⟩ := (wellFormedFields_iff fields).mp hwf
      obtain ⟨hperm, hsorted⟩ := sorted_kept hnodup
      obtain ⟨texts, hmembers, htexts⟩ := members_form (o := sortKeys (kept fields)) (by
        intro p hp
        obtain ⟨hmem, hu⟩ := mem_kept.mp (hperm.mem_iff.mp hp)
        exact ⟨h.names fields .here p (hperm.mem_iff.mp hp),
          fields_form fields hwell (fun q hq => h.field hq) p hmem hu⟩)
      refine ⟨_, .obj hperm hsorted hmembers, ?_⟩
      rw [jcsCanonicalize, jcsFields_eq_map, sortKeys_map jcsCanonicalize, htexts, textOf_cons,
        textOf_append, ← joinComma_textOf]
      rfl

theorem items_form : ∀ (items : List JsValue), wellFormedItems items = true →
    (∀ v ∈ items, Clean v) →
    ∃ texts, Items items texts ∧ jcsItems items = .ok (texts.map textOf)
  | [], _, _ => ⟨[], .nil, rfl⟩
  | v :: rest, hwf, h => by
      rw [wellFormedItems, Bool.and_eq_true] at hwf
      obtain ⟨hv, hrest⟩ := List.forall_mem_cons.mp h
      obtain ⟨texts, hitems, htexts⟩ := items_form rest hwf.2 hrest
      by_cases hu : v.isUndefined = true
      · refine ⟨_, .cons (by rw [element, if_pos hu]; exact .null) hitems, ?_⟩
        rw [jcsItems, if_pos hu, htexts]
        rfl
      · obtain ⟨text, hform, hjcs⟩ := jcs_form v hwf.1 (Bool.eq_false_iff.mpr hu) hv
        refine ⟨_, .cons (by rw [element, if_neg hu]; exact hform) hitems, ?_⟩
        rw [jcsItems, if_neg hu, hjcs, htexts]
        rfl

theorem fields_form : ∀ (fields : JsObject), (∀ p ∈ fields, p.2.wellFormed = true) →
    (∀ p ∈ fields, Clean p.2) → ∀ p ∈ fields, p.2.isUndefined = false →
    ∃ text, Form p.2 text ∧ jcsCanonicalize p.2 = .ok (textOf text)
  | [], _, _, _, hp, _ => nomatch hp
  | (key, v) :: rest, hwf, h, p, hp, hu => by
      rw [List.forall_mem_cons] at hwf h
      rcases List.mem_cons.mp hp with rfl | hp
      · exact jcs_form v hwf.1 hu h.1
      · exact fields_form rest hwf.2 h.2 p hp hu

end

/-! ### There is one form -/

mutual

theorem form_unique : ∀ {v : JsValue} {text text' : List Char}, Form v text → Form v text' →
    text = text'
  | _, _, _, .null, .null => rfl
  | _, _, _, .yes, .yes => rfl
  | _, _, _, .no, .no => rfl
  | _, _, _, .num h, .num h' => textOf_injective (h.trans h'.symm)
  | _, _, _, .str cs, h' => by
      generalize hv : JsValue.str (textOf cs) = v at h'
      cases h' with
      | str ds =>
          injection hv with htext
          rw [textOf_injective htext]
      | _ => exact nomatch hv
  | _, _, _, .arr h, .arr h' => by rw [items_unique h h']
  | _, _, _, .obj hperm hsorted h, .obj hperm' hsorted' h' => by
      have heq := (hperm.trans hperm'.symm).eq_of_pairwise
        (fun p q _ _ hpq hqp => absurd hqp (List.lt_asymm hpq)) hsorted hsorted'
      subst heq
      rw [members_unique h h']

theorem items_unique : ∀ {items : List JsValue} {texts texts' : List (List Char)},
    Items items texts → Items items texts' → texts = texts'
  | _, _, _, .nil, .nil => rfl
  | _, _, _, .cons h hrest, .cons h' hrest' => by
      rw [form_unique h h', items_unique hrest hrest']

theorem members_unique : ∀ {o : JsObject} {texts texts' : List (List Char)},
    Members o texts → Members o texts' → texts = texts'
  | _, _, _, .nil, .nil => rfl
  | _, _, _, .cons h hrest, h' => by
      generalize hp : (_ :: _ : JsObject) = o at h'
      cases h' with
      | nil => exact nomatch hp
      | cons h' hrest' =>
          obtain ⟨hpair, rfl⟩ := List.cons.inj hp
          injection hpair with hname hvalue
          subst hvalue
          rw [textOf_injective hname, form_unique h h', members_unique hrest hrest']

end

end Rfc8785

/-! ### When the printer throws -/

/-- All that the printer looks for: it does not look at the names. -/
structure Printable (v : JsValue) : Prop where
  numbers : ∀ n, Occurs (.num n) v → n.isFinite = true
  strings : ∀ s, Occurs (.str s) v → hasLoneSurrogate s = false

theorem printable_iff (v : JsValue) : Printable v ↔ ¬ (HasNonFinite v ∨ HasLoneString v) := by
  constructor
  · rintro h (⟨n, hn, hinf⟩ | ⟨s, hs, hlone⟩)
    · rw [h.numbers n hn] at hinf
      exact Bool.false_ne_true hinf.symm
    · rw [h.strings s hs] at hlone
      exact Bool.false_ne_true hlone
  · intro h
    rw [not_or] at h
    refine ⟨?_, ?_⟩
    · intro n hn
      exact Bool.of_not_eq_false fun hinf => h.1 ⟨n, hn, hinf⟩
    · intro s hs
      exact Bool.of_not_eq_true fun hlone => h.2 ⟨s, hs, hlone⟩

theorem printable_arr (items : List JsValue) :
    Printable (.arr items) ↔ ∀ v ∈ items, Printable v := by
  constructor
  · intro h v hv
    exact ⟨fun n hn => h.numbers n (.item hv hn), fun s hs => h.strings s (.item hv hs)⟩
  · intro h
    refine ⟨?_, ?_⟩
    · intro n hn
      cases hn with
      | item hv hn => exact (h _ hv).numbers n hn
    · intro s hs
      cases hs with
      | item hv hs => exact (h _ hv).strings s hs

theorem printable_obj (fields : JsObject) :
    Printable (.obj fields) ↔ ∀ p ∈ fields, Printable p.2 := by
  constructor
  · intro h p hp
    exact ⟨fun n hn => h.numbers n (.field hp hn), fun s hs => h.strings s (.field hp hs)⟩
  · intro h
    refine ⟨?_, ?_⟩
    · intro n hn
      cases hn with
      | field hp hn => exact (h _ hp).numbers n hn
    · intro s hs
      cases hs with
      | field hp hs => exact (h _ hp).strings s hs

/-- A value that is no string, no number and has no parts. -/
theorem printable_of_plain {v : JsValue} (hnum : ∀ n, ¬ Occurs (.num n) v)
    (hstr : ∀ s, ¬ Occurs (.str s) v) : Printable v :=
  ⟨fun n hn => absurd hn (hnum n), fun s hs => absurd hs (hstr s)⟩

theorem printable_undefined : Printable .undefined := by
  refine printable_of_plain ?_ ?_ <;> exact fun _ h => nomatch h

mutual

theorem jcs_ok_iff : ∀ (v : JsValue), v.isUndefined = false →
    ((∃ t, jcsCanonicalize v = .ok t) ↔ Printable v)
  | .undefined, hu => nomatch hu
  | .null, _ => iff_of_true ⟨_, rfl⟩
      (printable_of_plain (fun _ h => nomatch h) (fun _ h => nomatch h))
  | .bool b, _ => iff_of_true ⟨_, rfl⟩
      (printable_of_plain (fun _ h => nomatch h) (fun _ h => nomatch h))
  | .num n, _ => by
      rw [jcsCanonicalize]
      constructor
      · rintro ⟨t, h⟩
        refine ⟨?_, fun s hs => nomatch hs⟩
        intro m hm
        cases hm
        by_contra hfin
        rw [if_neg hfin] at h
        exact nomatch h
      · intro h
        exact ⟨_, if_pos (h.numbers n .here)⟩
  | .str s, _ => by
      rw [jcs_str_ok_iff]
      constructor
      · intro h
        refine ⟨(fun n hn => nomatch hn), ?_⟩
        intro t ht
        cases ht
        exact h
      · exact fun h => h.strings s .here
  | .arr items, _ => by
      rw [printable_arr, ← items_ok_iff items, jcsCanonicalize]
      cases jcsItems items with
      | error e => exact iff_of_false (fun ⟨t, h⟩ => nomatch h) (fun ⟨t, h⟩ => nomatch h)
      | ok ts => exact ⟨fun _ => ⟨ts, rfl⟩, fun _ => ⟨_, rfl⟩⟩
  | .obj fields, _ => by
      rw [printable_obj, jcs_obj_ok_iff]
      constructor
      · intro h p hp
        cases hu : p.2.isUndefined with
        | true =>
            rw [eq_undefined hu]
            exact printable_undefined
        | false => exact (fields_ok_iff fields p hp hu).mp (h p hp hu)
      · intro h p hp hu
        exact (fields_ok_iff fields p hp hu).mpr (h p hp)

theorem items_ok_iff : ∀ (items : List JsValue),
    (∃ ts, jcsItems items = .ok ts) ↔ ∀ v ∈ items, Printable v
  | [] => iff_of_true ⟨[], rfl⟩ fun _ h => nomatch h
  | v :: rest => by
      rw [List.forall_mem_cons, ← items_ok_iff rest, jcsItems]
      by_cases hu : v.isUndefined = true
      · rw [if_pos hu, eq_undefined hu]
        cases jcsItems rest with
        | error e => exact iff_of_false (fun ⟨t, h⟩ => nomatch h) (fun ⟨_, t, h⟩ => nomatch h)
        | ok ts => exact ⟨fun _ => ⟨printable_undefined, ts, rfl⟩, fun _ => ⟨_, rfl⟩⟩
      · rw [if_neg hu, ← jcs_ok_iff v (Bool.eq_false_iff.mpr hu)]
        cases jcsCanonicalize v with
        | error e => exact iff_of_false (fun ⟨t, h⟩ => nomatch h) (fun ⟨⟨t, h⟩, _⟩ => nomatch h)
        | ok t =>
            cases jcsItems rest with
            | error e => exact iff_of_false (fun ⟨t, h⟩ => nomatch h) (fun ⟨_, t, h⟩ => nomatch h)
            | ok ts => exact ⟨fun _ => ⟨⟨t, rfl⟩, ts, rfl⟩, fun _ => ⟨_, rfl⟩⟩

theorem fields_ok_iff : ∀ (fields : JsObject), ∀ p ∈ fields, p.2.isUndefined = false →
    ((∃ t, jcsCanonicalize p.2 = .ok t) ↔ Printable p.2)
  | [], _, hp, _ => nomatch hp
  | (key, v) :: rest, p, hp, hu => by
      rcases List.mem_cons.mp hp with rfl | hp
      · exact jcs_ok_iff v hu
      · exact fields_ok_iff rest p hp hu

end

theorem jcs_throws_iff {v : JsValue} (hu : v.isUndefined = false) :
    (∃ e, jcsCanonicalize v = .error e) ↔ HasNonFinite v ∨ HasLoneString v := by
  rw [← not_iff_not, ← printable_iff, ← jcs_ok_iff v hu]
  cases jcsCanonicalize v with
  | error e => exact ⟨fun h => absurd ⟨e, rfl⟩ h, fun ⟨t, h⟩ => nomatch h⟩
  | ok t => exact ⟨fun _ => ⟨t, rfl⟩, fun _ ⟨e, h⟩ => nomatch h⟩

/-- **The printer rejects exactly what has no form, unless a name is all that keeps the value from
having one.** -/
theorem jcs_rejects_iff (v : JsValue) (hwf : v.wellFormed = true) (hu : v.isUndefined = false) :
    JcsRejectsExactly v ↔ (HasLoneKey v → HasNonFinite v ∨ HasLoneString v) := by
  constructor
  · intro h hkey
    exact (jcs_throws_iff hu).mp (h.throws.mpr (Or.inr (Or.inr hkey)))
  · intro hkeys
    refine ⟨?_, ?_⟩
    · rw [jcs_throws_iff hu, ← or_assoc]
      exact ⟨Or.inl, fun h => h.elim id hkeys⟩
    · intro t ht
      have hnot : ¬ (HasNonFinite v ∨ HasLoneString v) := by
        intro hbad
        obtain ⟨e, he⟩ := (jcs_throws_iff hu).mpr hbad
        rw [ht] at he
        exact nomatch he
      have hclean : Rfc8785.Clean v := by
        rw [Rfc8785.clean_iff, ← or_assoc]
        exact fun h => hnot (h.elim id hkeys)
      obtain ⟨text, hform, hjcs⟩ := Rfc8785.jcs_form v hwf hu hclean
      obtain rfl := Except.ok.inj (ht.symm.trans hjcs)
      refine ⟨textOf_whole text, text, ⟨hform, utf8Encode_textOf text⟩, ?_⟩
      exact fun other h => Rfc8785.form_unique h.1 hform

/-- A value the self-test canonicalizes. -/
def sampleJcs : JsValue :=
  .obj [(js "b", .ofNat 1), (js "a", .ofNat 2), (js "c", .arr [.ofNat 3, .ofNat 2, .ofNat 1])]

theorem sampleJcs_rejects_iff :
    JcsRejectsExactly sampleJcs ↔
      (HasLoneKey sampleJcs → HasNonFinite sampleJcs ∨ HasLoneString sampleJcs) :=
  jcs_rejects_iff sampleJcs (by decide) rfl

/-- An object whose only name is half a character is printed. -/
theorem lone_name_printed : ¬ JcsRejectsExactly (.obj [([0xD800], .ofNat 1)]) := by
  intro h
  have hkey : HasLoneKey (.obj [([0xD800], .ofNat 1)]) :=
    ⟨_, .here, ([0xD800], .ofNat 1), List.mem_singleton_self _, rfl⟩
  obtain ⟨e, he⟩ := h.throws.mpr (Or.inr (Or.inr hkey))
  have hprinted : (jcsCanonicalize (.obj [([0xD800], .ofNat 1)])).isOk = true := by decide
  rw [he] at hprinted
  exact nomatch hprinted

end HuginAgent
