/-
Messages that are put together of parts.

A part is bytes, or nothing where it cannot be written.  Two parts are cut the same when, in front
of whatever follows them, they can only be the same bytes: parts of one length are, and parts that
begin with their length are.  Messages of parts that are cut the same have the same parts
(`parts_eq_of_concat_eq`).
-/
import Mathlib.Data.List.Basic

namespace HuginAgent

namespace Framing

/-- All parts, one after the other. -/
def concat : List (Option (List UInt8)) → Option (List UInt8)
  | [] => some []
  | part :: parts =>
      match part, concat parts with
      | some x, some y => some (x ++ y)
      | _, _ => none

/-- Four bytes, the most significant first. -/
def uint32be (n : Nat) : List UInt8 :=
  [(n / 0x1000000).toUInt8, (n / 0x10000).toUInt8, (n / 0x100).toUInt8, n.toUInt8]

/-- A part that begins with its length, where four bytes hold it. -/
def prefixed (body : List UInt8) : Option (List UInt8) :=
  if body.length < 0x100000000 then some (uint32be body.length ++ body) else none

/-- The two parts can only be the same, whatever follows them. -/
def CutSame (p q : Option (List UInt8)) : Prop :=
  ∀ x y, p = some x → q = some y → ∀ r s, x ++ r = y ++ s → x = y

theorem cutSame_of_length {a b : List UInt8} (h : a.length = b.length) :
    CutSame (some a) (some b) := by
  rintro x y hx hy r s hxy
  obtain rfl := Option.some.inj hx
  obtain rfl := Option.some.inj hy
  exact (List.append_inj hxy h).1

theorem uint32be_injective {m n : Nat} (hm : m < 0x100000000) (hn : n < 0x100000000)
    (h : uint32be m = uint32be n) : m = n := by
  have hbyte : ∀ {i j : Nat}, i.toUInt8 = j.toUInt8 → i % 256 = j % 256 := by
    intro i j hij
    have hval := congrArg UInt8.toNat hij
    rwa [Nat.toUInt8_eq, Nat.toUInt8_eq, UInt8.toNat_ofNat', UInt8.toNat_ofNat'] at hval
  simp only [uint32be, List.cons.injEq, and_true] at h
  obtain ⟨h₁, h₂, h₃, h₄⟩ := h
  have h₁ := hbyte h₁
  have h₂ := hbyte h₂
  have h₃ := hbyte h₃
  have h₄ := hbyte h₄
  omega

/-- **A part that begins with its length tells where it ends.** -/
theorem cutSame_prefixed (a b : List UInt8) : CutSame (prefixed a) (prefixed b) := by
  intro x y hx hy r s hxy
  unfold prefixed at hx hy
  obtain ⟨ha, hx⟩ := Option.ite_none_right_eq_some.mp hx
  obtain ⟨hb, hy⟩ := Option.ite_none_right_eq_some.mp hy
  obtain rfl := Option.some.inj hx
  obtain rfl := Option.some.inj hy
  rw [List.append_assoc, List.append_assoc] at hxy
  obtain ⟨hhead, hrest⟩ := List.append_inj hxy rfl
  have hlength := uint32be_injective ha hb hhead
  rw [hhead, (List.append_inj hrest hlength).1]

theorem prefixed_injective {a b x : List UInt8} (ha : prefixed a = some x) (hb : prefixed b = some x) :
    a = b := by
  unfold prefixed at ha hb
  obtain ⟨-, ha⟩ := Option.ite_none_right_eq_some.mp ha
  obtain ⟨-, hb⟩ := Option.ite_none_right_eq_some.mp hb
  exact (List.append_inj ((Option.some.inj ha).trans (Option.some.inj hb).symm) rfl).2

theorem isSome_prefixed {body : List UInt8} (h : body.length < 0x100000000) :
    (prefixed body).isSome = true := by
  rw [prefixed, if_pos h]
  rfl

/-- Parts that can all be written make a message. -/
theorem isSome_concat {parts : List (Option (List UInt8))} (h : ∀ p ∈ parts, p.isSome = true) :
    (concat parts).isSome = true := by
  induction parts with
  | nil => rfl
  | cons p rest ih =>
      obtain ⟨hp, hrest⟩ := List.forall_mem_cons.mp h
      obtain ⟨x, rfl⟩ := Option.isSome_iff_exists.mp hp
      obtain ⟨y, hy⟩ := Option.isSome_iff_exists.mp (ih hrest)
      simp only [concat, hy, Option.isSome_some]

theorem concat_cons_eq_some {p : Option (List UInt8)} {ps : List (Option (List UInt8))}
    {t : List UInt8} (h : concat (p :: ps) = some t) :
    ∃ x y, p = some x ∧ concat ps = some y ∧ t = x ++ y := by
  unfold concat at h
  split at h
  · exact ⟨_, _, rfl, by assumption, (Option.some.inj h).symm⟩
  · exact nomatch h

/-- The first parts of a message are the same. -/
theorem head_eq_of_concat_eq {p q : Option (List UInt8)} {ps qs : List (Option (List UInt8))}
    {t : List UInt8} (hcut : CutSame p q) (hp : concat (p :: ps) = some t)
    (hq : concat (q :: qs) = some t) :
    ∃ x y, p = some x ∧ q = some x ∧ concat ps = some y ∧ concat qs = some y := by
  obtain ⟨x, y, hx, hy, rfl⟩ := concat_cons_eq_some hp
  obtain ⟨x', y', hx', hy', h⟩ := concat_cons_eq_some hq
  obtain rfl := hcut x x' hx hx' y y' h
  obtain rfl := List.append_cancel_left h
  exact ⟨x, y, hx, hx', hy, hy'⟩

/-- **Messages of parts that are cut the same have the same parts.** -/
theorem parts_eq_of_concat_eq {ps qs : List (Option (List UInt8))}
    (hcut : List.Forall₂ CutSame ps qs) {t : List UInt8} (hp : concat ps = some t)
    (hq : concat qs = some t) :
    List.Forall₂ (fun p q => ∃ x, p = some x ∧ q = some x) ps qs := by
  induction hcut generalizing t with
  | nil => exact .nil
  | cons hhead _ ih =>
      obtain ⟨x, y, hx, hx', hy, hy'⟩ := head_eq_of_concat_eq hhead hp hq
      exact .cons ⟨x, hx, hx'⟩ (ih hy hy')

end Framing

end HuginAgent
