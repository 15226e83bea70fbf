/-
A table with a primary key.

`Table` holds its rows in insertion order together with the proof that no two of
them share a key, so a row is found by its key or not at all and every statement
that changes the table is a total function.  The statements are the ones of SQL:
an insert that fails on a taken key, one that ignores it, one that replaces, an
update that leaves the key alone, and a delete by any condition.

What the later proofs use is `find?` after each statement; nothing else needs to
look at the rows.
-/
import Mathlib.Data.List.Nodup

namespace HuginAgent

/-- Rows with pairwise different keys, oldest first. -/
structure Table {ρ κ : Type} (key : ρ → κ) where
  rows : List ρ
  pk : (rows.map key).Nodup

namespace Table

variable {ρ κ : Type} [DecidableEq κ] {key : ρ → κ}

def empty : Table key := ⟨[], List.nodup_nil⟩

/-- The row of a key. -/
def find? (t : Table key) (k : κ) : Option ρ := t.rows.find? fun r => key r = k

/-- `INSERT`: fails when the key is taken. -/
def insert? (t : Table key) (r : ρ) : Option (Table key) :=
  if h : key r ∈ t.rows.map key then none
  else some ⟨t.rows ++ [r], by
    rw [List.map_append, List.nodup_append]
    refine ⟨t.pk, List.nodup_singleton _, ?_⟩
    intro k hk k' hk'
    rw [List.map_singleton, List.mem_singleton] at hk'
    exact fun hc => h (hk' ▸ hc ▸ hk)⟩

/-- `INSERT OR IGNORE`. -/
def insertOrIgnore (t : Table key) (r : ρ) : Table key := (t.insert? r).getD t

/-- `DELETE … WHERE p`. -/
def delete (t : Table key) (p : ρ → Bool) : Table key :=
  ⟨t.rows.filter fun r => !p r, t.pk.sublist (List.filter_sublist.map key)⟩

/-- `INSERT OR REPLACE`. -/
def replace (t : Table key) (r : ρ) : Table key :=
  (t.delete fun s => key s = key r).insertOrIgnore r

/-- `UPDATE`, of columns outside the key. -/
def update (t : Table key) (f : ρ → ρ) (hf : ∀ r, key (f r) = key r) : Table key :=
  ⟨t.rows.map f, by
    rw [List.map_map, show key ∘ f = key from funext hf]
    exact t.pk⟩

/-- `UPDATE … WHERE key = k`. -/
def updateKey (t : Table key) (k : κ) (f : ρ → ρ) (hf : ∀ r, key (f r) = key r) : Table key :=
  t.update (fun r => if key r = k then f r else r) (by intro r; split <;> simp [hf])

/-- `INSERT … ON CONFLICT DO UPDATE`, and `map.set`: a row whose key is there is changed where it
stands. -/
def put (t : Table key) (r : ρ) : Table key :=
  (t.update (fun s => if key s = key r then r else s) (by intro s; split <;> simp [*])).insertOrIgnore r

/-! ### What a key finds -/

theorem find?_eq_some {t : Table key} {k : κ} {r : ρ} :
    t.find? k = some r ↔ r ∈ t.rows ∧ key r = k := by
  constructor
  · intro h
    exact ⟨List.mem_of_find?_eq_some h, by simpa using List.find?_some h⟩
  · intro h
    obtain ⟨hmem, hkey⟩ := h
    cases hfind : t.find? k with
    | none => exact absurd hkey (by simpa using List.find?_eq_none.mp hfind r hmem)
    | some s =>
        have hs : key s = k := by simpa using List.find?_some hfind
        have hinj := List.inj_on_of_nodup_map t.pk
        rw [hinj (List.mem_of_find?_eq_some hfind) hmem (hs.trans hkey.symm)]

theorem find?_eq_none {t : Table key} {k : κ} : t.find? k = none ↔ ∀ r ∈ t.rows, key r ≠ k := by
  rw [find?, List.find?_eq_none]
  simp

theorem key_of_find? {t : Table key} {k : κ} {r : ρ} (h : t.find? k = some r) : key r = k :=
  (find?_eq_some.mp h).2

@[simp] theorem find?_empty (k : κ) : (empty : Table key).find? k = none := rfl

theorem insert?_eq_none {t : Table key} {r : ρ} :
    t.insert? r = none ↔ (t.find? (key r)).isSome := by
  rw [Option.isSome_iff_ne_none, ne_eq, find?_eq_none]
  unfold insert?
  split
  · rename_i h
    obtain ⟨s, hs, hkey⟩ := List.mem_map.mp h
    exact ⟨fun _ hall => hall s hs hkey, fun _ => rfl⟩
  · rename_i h
    refine ⟨fun hc => absurd hc (by simp), fun hc => absurd ?_ hc⟩
    exact fun s hs hkey => h (List.mem_map.mpr ⟨s, hs, hkey⟩)

theorem rows_insert? {t t' : Table key} {r : ρ} (h : t.insert? r = some t') :
    t'.rows = t.rows ++ [r] := by
  unfold insert? at h
  split at h
  · exact absurd h (by simp)
  · rw [← Option.some.inj h]

theorem find?_of_insert? {t t' : Table key} {r : ρ} (h : t.insert? r = some t') :
    t.find? (key r) = none := by
  cases hfind : t.find? (key r) with
  | none => rfl
  | some s =>
      rw [insert?_eq_none.mpr (by rw [hfind]; rfl)] at h
      exact absurd h (by simp)

theorem find?_insert? {t t' : Table key} {r : ρ} (h : t.insert? r = some t') (k : κ) :
    t'.find? k = if k = key r then some r else t.find? k := by
  have hrows : t'.find? k = (t.find? k).or (if k = key r then some r else none) := by
    rw [find?, rows_insert? h, List.find?_append, List.find?_singleton]
    simp only [decide_eq_true_eq, eq_comm (a := k)]
    rfl
  rw [hrows]
  by_cases hk : k = key r
  · rw [if_pos hk, if_pos hk, hk, find?_of_insert? h, Option.none_or]
  · rw [if_neg hk, if_neg hk, Option.or_none]

theorem find?_insertOrIgnore (t : Table key) (r : ρ) (k : κ) :
    (t.insertOrIgnore r).find? k =
      if k = key r then some ((t.find? k).getD r) else t.find? k := by
  unfold insertOrIgnore
  cases h : t.insert? r with
  | none =>
      obtain ⟨s, hs⟩ := Option.isSome_iff_exists.mp (insert?_eq_none.mp h)
      by_cases hk : k = key r
      · rw [if_pos hk, hk, Option.getD_none, hs, Option.getD_some]
      · rw [if_neg hk, Option.getD_none]
  | some t' =>
      rw [Option.getD_some, find?_insert? h]
      by_cases hk : k = key r
      · rw [if_pos hk, if_pos hk, hk, find?_of_insert? h, Option.getD_none]
      · rw [if_neg hk, if_neg hk]

theorem find?_delete (t : Table key) (p : ρ → Bool) (k : κ) :
    (t.delete p).find? k = (t.find? k).filter fun r => !p r := by
  cases hfind : t.find? k with
  | none =>
      rw [Option.filter_none, find?_eq_none]
      exact fun r hr => find?_eq_none.mp hfind r (List.mem_of_mem_filter hr)
  | some s =>
      obtain ⟨hmem, hkey⟩ := find?_eq_some.mp hfind
      by_cases hp : p s = true
      · rw [Option.filter_some, if_neg (by simp [hp]), find?_eq_none]
        intro r hr hc
        obtain ⟨hr, hpr⟩ := List.mem_filter.mp hr
        have hinj := List.inj_on_of_nodup_map t.pk hr hmem (hc.trans hkey.symm)
        rw [hinj, hp] at hpr
        exact absurd hpr (by simp)
      · rw [Option.filter_some, if_pos (by simp [hp]), find?_eq_some]
        exact ⟨List.mem_filter.mpr ⟨hmem, by simp [hp]⟩, hkey⟩

/-- A delete whose condition is one on the key. -/
theorem find?_delete_key (t : Table key) {p : ρ → Bool} {q : κ → Bool} (hp : ∀ r, p r = q (key r))
    (k : κ) : (t.delete p).find? k = if q k = true then none else t.find? k := by
  rw [find?_delete]
  cases hfind : t.find? k with
  | none => simp
  | some r =>
      rw [Option.filter_some, hp, key_of_find? hfind]
      by_cases hq : q k = true
      · simp [hq]
      · simp [hq]

theorem find?_replace (t : Table key) (r : ρ) (k : κ) :
    (t.replace r).find? k = if k = key r then some r else t.find? k := by
  have hdelete := t.find?_delete_key (p := fun s => key s = key r) (q := fun k => k = key r)
    (fun _ => rfl) k
  rw [replace, find?_insertOrIgnore, hdelete]
  by_cases hk : k = key r
  · simp [hk]
  · simp [hk]

@[simp] theorem find?_update (t : Table key) (f : ρ → ρ) (hf : ∀ r, key (f r) = key r) (k : κ) :
    (t.update f hf).find? k = (t.find? k).map f := by
  simp only [find?, update, List.find?_map, Function.comp_def, hf]

theorem find?_updateKey (t : Table key) (a : κ) (f : ρ → ρ) (hf : ∀ r, key (f r) = key r) (k : κ) :
    (t.updateKey a f hf).find? k = if k = a then (t.find? k).map f else t.find? k := by
  rw [updateKey, find?_update]
  cases hfind : t.find? k with
  | none => simp
  | some r =>
      rw [Option.map_some, key_of_find? hfind]
      split <;> rfl

theorem find?_put (t : Table key) (r : ρ) (k : κ) :
    (t.put r).find? k = if k = key r then some r else t.find? k := by
  rw [put, find?_insertOrIgnore, find?_update]
  by_cases hk : k = key r
  · rw [if_pos hk, if_pos hk]
    cases hfind : t.find? k with
    | none => rfl
    | some s =>
        have hkey : key s = key r := (key_of_find? hfind).trans hk
        rw [Option.map_some, if_pos hkey, Option.getD_some]
  · rw [if_neg hk, if_neg hk]
    cases hfind : t.find? k with
    | none => rfl
    | some s =>
        have hkey : key s ≠ key r := fun hc => hk ((key_of_find? hfind).symm.trans hc)
        rw [Option.map_some, if_neg hkey]

/-- A row that is there already is put where it is. -/
theorem put_self {t : Table key} {r : ρ} (h : t.find? (key r) = some r) : t.put r = t := by
  obtain ⟨hmem, -⟩ := find?_eq_some.mp h
  have hinj := List.inj_on_of_nodup_map t.pk
  have hmap : t.rows.map (fun s => if key s = key r then r else s) = t.rows := by
    conv_rhs => rw [← List.map_id t.rows]
    refine List.map_congr_left fun s hs => ?_
    by_cases hkey : key s = key r
    · rw [if_pos hkey]
      exact hinj hmem hs hkey.symm
    · exact if_neg hkey
  have htaken : key r ∈ (t.rows.map fun s => if key s = key r then r else s).map key := by
    rw [hmap]
    exact List.mem_map_of_mem hmem
  rw [put, insertOrIgnore, insert?, update]
  rw [dif_pos htaken, Option.getD_none]
  cases t with
  | mk rows pk =>
      simp only [mk.injEq]
      exact hmap

/-- The rows beside the one that is put. -/
theorem rows_put {t : Table key} {r old : ρ} (h : t.find? (key r) = some old) :
    ∃ rest, t.rows.Perm (old :: rest) ∧ (t.put r).rows.Perm (r :: rest) := by
  obtain ⟨hmem, hkey⟩ := find?_eq_some.mp h
  obtain ⟨before, after, hrows⟩ := List.append_of_mem hmem
  have hother : ∀ s ∈ before ++ after, key s ≠ key r := by
    have hpk := t.pk
    rw [hrows, List.map_append, List.map_cons, List.nodup_middle, ← List.map_append] at hpk
    intro s hs hc
    exact (List.nodup_cons.mp hpk).1 (List.mem_map.mpr ⟨s, hs, hc.trans hkey.symm⟩)
  have hsame : ∀ l : List ρ, (∀ s ∈ l, key s ≠ key r) →
      l.map (fun s => if key s = key r then r else s) = l := by
    intro l hl
    conv_rhs => rw [← List.map_id l]
    exact List.map_congr_left fun s hs => if_neg (hl s hs)
  have hput : (t.put r).rows = before ++ r :: after := by
    have hmap : (t.update (fun s => if key s = key r then r else s)
        (by intro s; split <;> simp [*])).rows = before ++ r :: after := by
      show t.rows.map _ = _
      rw [hrows, List.map_append, List.map_cons, if_pos hkey,
        hsame before fun s hs => hother s (List.mem_append_left _ hs),
        hsame after fun s hs => hother s (List.mem_append_right _ hs)]
    have htaken : key r ∈ (before ++ r :: after).map key :=
      List.mem_map_of_mem (List.mem_append_right _ List.mem_cons_self)
    rw [put, insertOrIgnore, insert?]
    split
    · exact hmap
    · rename_i hc
      rw [hmap] at hc
      exact absurd htaken hc
  refine ⟨before ++ after, ?_, ?_⟩
  · rw [hrows]
    exact List.perm_middle
  · rw [hput]
    exact List.perm_middle

theorem countP_put {t : Table key} {r old : ρ} (h : t.find? (key r) = some old) (p : ρ → Bool) :
    (t.put r).rows.countP p + (if p old then 1 else 0) = t.rows.countP p + if p r then 1 else 0 := by
  obtain ⟨rest, hrows, hput⟩ := rows_put h
  rw [hrows.countP_eq, hput.countP_eq, List.countP_cons, List.countP_cons]
  omega

/-- A new row comes last. -/
theorem rows_put_new {t : Table key} {r : ρ} (h : t.find? (key r) = none) :
    (t.put r).rows = t.rows ++ [r] := by
  have hother := find?_eq_none.mp h
  have hmap : t.rows.map (fun s => if key s = key r then r else s) = t.rows := by
    conv_rhs => rw [← List.map_id t.rows]
    exact List.map_congr_left fun s hs => if_neg (hother s hs)
  have hfree : key r ∉ (t.rows.map fun s => if key s = key r then r else s).map key := by
    rw [hmap]
    intro hc
    obtain ⟨s, hs, hkey⟩ := List.mem_map.mp hc
    exact hother s hs hkey
  rw [put, insertOrIgnore, insert?, update]
  rw [dif_neg hfree]
  exact congrArg (· ++ [r]) hmap

end Table

end HuginAgent
