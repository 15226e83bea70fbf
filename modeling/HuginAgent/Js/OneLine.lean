/-
A JSON text is one line.

`JSON.stringify` escapes every control character of a string, and what it writes between
strings has none.  So a text may be sent with a line feed after it, and the receiver finds
its end there.
-/
import HuginAgent.Js.Json

namespace HuginAgent

/-- Not a control character. -/
def isPrint (u : UInt16) : Bool := 32 ≤ u

/-- The line feed that ends a line of the socket protocol. -/
def newline : UInt16 := 10

theorem hexDigit_print {d : Nat} (h : d < 16) : isPrint (hexDigit d) = true := by
  have hall : ∀ d < 16, isPrint (hexDigit d) = true := by decide
  exact hall d h

theorem unicodeEscape_print (u : UInt16) : (unicodeEscape u).all isPrint = true := by
  have hlt := u.toNat_lt
  have h1 := hexDigit_print (d := u.toNat / 4096) (by omega)
  have h2 := hexDigit_print (d := u.toNat / 256 % 16) (by omega)
  have h3 := hexDigit_print (d := u.toNat / 16 % 16) (by omega)
  have h4 := hexDigit_print (d := u.toNat % 16) (by omega)
  simp only [unicodeEscape, hex4, List.all_cons, List.all_nil, h1, h2, h3, h4]
  decide

theorem quoteUnit_print (prevHigh : Bool) (u : UInt16) (rest : JsString) :
    (quoteUnit prevHigh u rest).all isPrint = true := by
  unfold quoteUnit
  repeat' split
  all_goals first | decide | skip
  · exact unicodeEscape_print u
  · rename_i hctl
    simp only [Bool.or_eq_true, decide_eq_true_eq, not_or, UInt16.not_lt] at hctl
    simp [isPrint, hctl.1]

theorem quote_print (s : JsString) : (quote s).all isPrint = true := by
  have hfrom : ∀ (s : JsString) (prevHigh : Bool), (quoteFrom prevHigh s).all isPrint = true := by
    intro s
    induction s with
    | nil => intro _; rfl
    | cons u rest ih =>
        intro prevHigh
        rw [quoteFrom, List.all_append, quoteUnit_print, ih, Bool.and_self]
  rw [quote, List.all_cons, List.all_append, hfrom]
  decide

/-- What a number is written with. -/
def isNumberUnit (u : UInt16) : Bool :=
  isDigit u || u = unit '.' || u = unit 'e' || u = unit '+' || u = unit '-'

theorem isNumberUnit_of_isDigit {u : UInt16} (h : isDigit u = true) : isNumberUnit u = true := by
  rw [isNumberUnit, h]
  rfl

theorem digitUnits_units (n : Nat) : ∀ u ∈ digitUnits n, isNumberUnit u = true :=
  fun u hu => isNumberUnit_of_isDigit (digitUnits_isDigit n u hu)

theorem Decimal.body_units (d : Decimal) : ∀ u ∈ d.body, isNumberUnit u = true := by
  have hds := digitUnits_units d.digits
  have htake : ∀ n, ∀ u ∈ (digitUnits d.digits).take n, isNumberUnit u = true :=
    fun n u hu => hds u (List.mem_of_mem_take hu)
  have hdrop : ∀ n, ∀ u ∈ (digitUnits d.digits).drop n, isNumberUnit u = true :=
    fun n u hu => hds u (List.mem_of_mem_drop hu)
  have hzeros : ∀ k, ∀ u ∈ List.replicate k (unit '0'), isNumberUnit u = true := by
    intro k u hu
    rw [List.eq_of_mem_replicate hu]
    decide
  have hlit : ∀ c : Char, isNumberUnit (unit c) = true → ∀ l : JsString,
      (∀ u ∈ l, isNumberUnit u = true) → ∀ u ∈ unit c :: l, isNumberUnit u = true :=
    fun c hc l hl => List.forall_mem_cons.mpr ⟨hc, hl⟩
  unfold Decimal.body
  simp only
  split
  · exact List.forall_mem_append.mpr ⟨hds, hzeros _⟩
  split
  · exact List.forall_mem_append.mpr ⟨htake _, hlit _ (by decide) _ (hdrop _)⟩
  split
  · exact hlit _ (by decide) _ (hlit _ (by decide) _ (List.forall_mem_append.mpr ⟨hzeros _, hds⟩))
  · rw [List.append_assoc]
    refine List.forall_mem_append.mpr ⟨htake _, List.forall_mem_append.mpr ⟨?_, ?_⟩⟩
    · split
      · exact fun u hu => absurd hu List.not_mem_nil
      · exact hlit _ (by decide) _ (hdrop _)
    · refine hlit _ (by decide) _ (List.forall_mem_cons.mpr ⟨?_, digitUnits_units _⟩)
      split <;> decide

theorem Decimal.text_units (d : Decimal) : ∀ u ∈ d.text, isNumberUnit u = true := by
  unfold Decimal.text
  split
  · decide
  split
  · exact List.forall_mem_cons.mpr ⟨by decide, d.body_units⟩
  · exact d.body_units

theorem isPrint_of_isNumberUnit {u : UInt16} (h : isNumberUnit u = true) : isPrint u = true := by
  have h32 : (32 : UInt16).toNat = 32 := rfl
  simp only [isNumberUnit, isDigit, Bool.or_eq_true, Bool.and_eq_true, decide_eq_true_eq] at h
  rw [isPrint, decide_eq_true_eq, UInt16.le_iff_toNat_le]
  rcases h with (((h | rfl) | rfl) | rfl) | rfl
  · have h48 : (48 : UInt16).toNat = 48 := rfl
    rw [UInt16.le_iff_toNat_le] at h
    omega
  all_goals decide

theorem JsNumber.text_print (n : JsNumber) : n.text.all isPrint = true := by
  cases n with
  | finite d => exact List.all_eq_true.mpr fun u hu => isPrint_of_isNumberUnit (d.text_units u hu)
  | nan => decide
  | infinity neg => cases neg <;> decide

theorem joinComma_print {ts : List JsString} (h : ∀ t ∈ ts, t.all isPrint = true) :
    (joinComma ts).all isPrint = true := by
  induction ts with
  | nil => rfl
  | cons t rest ih =>
      rw [List.forall_mem_cons] at h
      cases rest with
      | nil => exact h.1
      | cons t' rest =>
          rw [joinComma_cons_cons, List.all_append, List.all_cons, h.1, ih h.2]
          decide

mutual

theorem jsonText_print : ∀ (v : JsValue), (jsonText v).all isPrint = true
  | .num n => by
      rw [jsonText]
      split
      · exact n.text_print
      · decide
  | .str s => quote_print s
  | .arr items => by
      rw [jsonText, List.all_cons, List.all_append, joinComma_print (itemTexts_print items)]
      decide
  | .obj fields => by
      rw [jsonText, List.all_cons, List.all_append, joinComma_print (fieldTexts_print fields)]
      decide
  | .undefined => by decide
  | .null => by decide
  | .bool true => by decide
  | .bool false => by decide

theorem itemTexts_print : ∀ (items : List JsValue), ∀ t ∈ itemTexts items, t.all isPrint = true
  | [] => fun _ ht => absurd ht List.not_mem_nil
  | v :: rest => by
      rw [itemTexts]
      exact List.forall_mem_cons.mpr ⟨jsonText_print v, itemTexts_print rest⟩

theorem fieldTexts_print : ∀ (fields : JsObject), ∀ t ∈ fieldTexts fields, t.all isPrint = true
  | [] => fun _ ht => absurd ht List.not_mem_nil
  | (key, v) :: rest => by
      rw [fieldTexts]
      split
      · exact fieldTexts_print rest
      · refine List.forall_mem_cons.mpr ⟨?_, fieldTexts_print rest⟩
        rw [List.all_append, List.all_cons, quote_print, jsonText_print v]
        decide

end

/-- **The text of an object has no line feed in it.** -/
theorem newline_notMem_stringifyObject (o : JsObject) : newline ∉ stringifyObject o := by
  intro h
  have hprint := List.all_eq_true.mp (jsonText_print (.obj o)) newline h
  exact absurd hprint (by decide)

end HuginAgent
