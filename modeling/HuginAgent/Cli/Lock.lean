/-
The pidfile as a lock.

A start holds the file from its claim to the death of its daemon, and as long as it does the file is
its own: blank, then its claim, then the record of its daemon (`Sound.held`).  So two starts never
hold it at once, and it is enough that no process takes away what another one holds.

What is judged stale stays so: no pid is given out twice.  But the file that was judged and the file
that is unlinked need not be the same.
-/
import HuginAgent.Cli.Lifecycle

namespace HuginAgent

namespace Cli

variable {w w' w'' : World} {p q t u : Pid} {f : PidFile}

/-! ### Who holds the file -/

namespace World

/-- The start is between its claim and the death of its daemon. -/
def Holds (w : World) (p : Pid) : Prop :=
  (w.standing p).isClaiming = true ∨ ∃ child, w.standing p = .recorded child ∧ w.alive child = true

/-- The file is what the start has put there: its claim, blank at first, or the record of its
daemon. -/
def IsOf (w : World) (p : Pid) (f : PidFile) : Prop :=
  f.owner = some p ∧
    match w.standing p with
    | .idle => False
    | .opened fd => f.id = fd ∧ f.text = .blank
    | .claimed | .spawned _ => ∃ c, f.text = .claim c ∧ c.ownerPid = some p
    | .recorded child => ∃ r, f.text = .record r ∧ r.pid = child

end World

/-- The pid that a text names. -/
def PidfileText.pid : PidfileText → Option Pid
  | number n => some n
  | record r => some r.pid
  | claim c => c.ownerPid
  | blank | other => none

namespace World

/-- The file has been there, and so has the process that its text names. -/
structure Known (w : World) (f : PidFile) : Prop where
  id : f.id < w.nextId
  pid : ∀ pid, f.text.pid = some pid → w.used pid = true

/-- There is no such daemon any more, and there will be none. -/
structure Gone (w : World) (pid : Pid) : Prop where
  used : w.used pid = true
  notOurs : w.alive pid = true → w.daemon pid = false

/-- The file is not what a start holds. -/
structure Stale (w : World) (f : PidFile) : Prop where
  blank : f.text = .blank → ∀ q, w.standing q ≠ .opened f.id
  claim : ∀ c q, f.text = .claim c → c.ownerPid = some q → w.alive q = false
  record : ∀ r, f.text = .record r → w.Gone r.pid

structure Sound (w : World) : Prop where
  zero : w.used 0 = true ∧ w.alive 0 = false
  used : ∀ p, w.alive p = true → w.used p = true
  file : ∀ f, w.file = some f → w.Known f
  read : ∀ p f, w.lastRead p = some f → w.Known f
  idle : ∀ p, w.used p = false → w.standing p = .idle
  claimer : ∀ p, (w.standing p).isClaiming = true → w.alive p = true
  child : ∀ p c, w.standing p = .spawned c ∨ w.standing p = .recorded c →
    w.used c = true ∧ w.daemon c = true
  held : ∀ p, w.Holds p → ∃ f, w.file = some f ∧ w.IsOf p f
  recorded : ∀ f r, w.file = some f → f.text = .record r → w.alive r.pid = true →
    w.daemon r.pid = true → ∃ p, w.standing p = .recorded r.pid ∧ f.owner = some p

/-- Two starts never hold the file at once. -/
theorem Sound.exclusive (h : w.Sound) (hp : w.Holds p) (hq : w.Holds q) : p = q := by
  obtain ⟨f, hf, hown, -⟩ := h.held p hp
  obtain ⟨f', hf', hown', -⟩ := h.held q hq
  obtain rfl := Option.some.inj (hf.symm.trans hf')
  exact Option.some.inj (hown.symm.trans hown')

/-- What is stale is held by no one. -/
theorem Sound.not_holds (h : w.Sound) (hf : w.file = some f) (hstale : w.Stale f) :
    ¬ w.Holds p := by
  intro hp
  obtain ⟨f', hf', -, hof⟩ := h.held p hp
  obtain rfl := Option.some.inj (hf.symm.trans hf')
  have hclaim : (w.standing p).isClaiming = true → ¬ ∃ c, f.text = .claim c ∧ c.ownerPid = some p := by
    rintro hclaiming ⟨c, htext, howner⟩
    have halive := h.claimer p hclaiming
    rw [hstale.claim c p htext howner] at halive
    cases halive
  cases hst : w.standing p with
  | idle =>
      rw [hst] at hof
      exact hof
  | opened fd =>
      rw [hst] at hof
      exact hstale.blank hof.2 p (hof.1 ▸ hst)
  | claimed =>
      rw [hst] at hof
      exact hclaim (by rw [hst]; rfl) hof
  | spawned child =>
      rw [hst] at hof
      exact hclaim (by rw [hst]; rfl) hof
  | recorded child =>
      rw [hst] at hof
      obtain ⟨r, htext, rfl⟩ := hof
      rcases hp with hclaiming | ⟨child, hrec, halive⟩
      · rw [hst] at hclaiming
        cases hclaiming
      · obtain rfl : r.pid = child := Standing.recorded.inj (hst.symm.trans hrec)
        have hours := (h.child p r.pid (Or.inr hst)).2
        rw [(hstale.record r htext).notOurs halive] at hours
        cases hours

/-! ### What no step undoes -/

structure Grows (w w' : World) : Prop where
  used : ∀ p, w.used p = true → w'.used p = true
  dead : ∀ p, w.used p = true → w.alive p = false → w'.alive p = false
  daemon : ∀ p, w.used p = true → w'.daemon p = w.daemon p
  nextId : w.nextId ≤ w'.nextId
  opened : ∀ q fd, fd < w.nextId → w'.standing q = .opened fd → w.standing q = .opened fd

theorem Grows.refl (w : World) : w.Grows w :=
  ⟨fun _ h => h, fun _ _ h => h, fun _ _ => rfl, Nat.le_refl _, fun _ _ _ h => h⟩

theorem Grows.trans (h : w.Grows w') (h' : w'.Grows w'') : w.Grows w'' where
  used p hp := h'.used p (h.used p hp)
  dead p hp hdead := h'.dead p (h.used p hp) (h.dead p hp hdead)
  daemon p hp := (h'.daemon p (h.used p hp)).trans (h.daemon p hp)
  nextId := Nat.le_trans h.nextId h'.nextId
  opened q fd hfd hq := h.opened q fd hfd (h'.opened q fd (Nat.lt_of_lt_of_le hfd h.nextId) hq)

theorem Grows.known (h : w.Grows w') (hf : w.Known f) : w'.Known f where
  id := Nat.lt_of_lt_of_le hf.id h.nextId
  pid pid hpid := h.used pid (hf.pid pid hpid)

theorem Grows.alive (h : w.Grows w') (hp : w.used p = true) (halive : w'.alive p = true) :
    w.alive p = true := by
  by_contra hdead
  rw [h.dead p hp (Bool.eq_false_of_not_eq_true hdead)] at halive
  cases halive

theorem Grows.gone (h : w.Grows w') (hp : w.Gone p) : w'.Gone p where
  used := h.used p hp.used
  notOurs halive := by
    rw [h.daemon p hp.used]
    exact hp.notOurs (h.alive hp.used halive)

theorem Grows.stale (h : w.Grows w') (hf : w.Known f) (hstale : w.Stale f) : w'.Stale f where
  blank htext q hq := hstale.blank htext q (h.opened q f.id hf.id hq)
  claim c q htext howner :=
    h.dead q (hf.pid q (by rw [htext]; exact howner)) (hstale.claim c q htext howner)
  record r htext := h.gone (hstale.record r htext)

/-- What one process relies on while the others make their calls. -/
structure Kept (u : Pid) (w w' : World) : Prop where
  grows : w.Grows w'
  standing : w'.standing u = w.standing u
  alive : w.alive u = true → w'.alive u = true
  tmp : w'.tmp u = w.tmp u
  lastRead : w'.lastRead u = w.lastRead u
  lastStat : w'.lastStat u = w.lastStat u
  claim : (w.standing u).isClaiming = true → w'.file = w.file
  record : ∀ c, w.standing u = .recorded c → w.used c = true → w'.alive c = true → w'.file = w.file

theorem Kept.refl (u : Pid) (w : World) : Kept u w w :=
  ⟨.refl w, rfl, fun h => h, rfl, rfl, rfl, fun _ => rfl, fun _ _ _ _ => rfl⟩

theorem Kept.trans (h : Kept u w w') (h' : Kept u w' w'') : Kept u w w'' where
  grows := h.grows.trans h'.grows
  standing := h'.standing.trans h.standing
  alive ha := h'.alive (h.alive ha)
  tmp := h'.tmp.trans h.tmp
  lastRead := h'.lastRead.trans h.lastRead
  lastStat := h'.lastStat.trans h.lastStat
  claim hc := (h'.claim (h.standing ▸ hc)).trans (h.claim hc)
  record c hc hused halive :=
    (h'.record c (h.standing.trans hc) (h.grows.used c hused) halive).trans
      (h.record c hc hused (h'.grows.alive (h.grows.used c hused) halive))

/-! ### What may come between two calls -/

/-- A process does not take the age of a blank file for that of a claim given up while the claimer is
still about to write it; it unlinks the file that it has read; and it gives the file back after a
record could not be written only when the child has ended. -/
def MayCall (w : World) (t : Pid) : Call → Prop
  | .now => ∀ f q, w.lastRead t = some f → f.text = .blank → w.standing q = .opened f.id →
      w.clock < f.fingerprint.mtimeMs + activeClaimGraceMs
  | .unlink =>
      (∀ child, w.standing t = .spawned child → w.alive child = false) ∧
        ((w.standing t).isClaiming = false → ∀ f, w.file = some f →
          w.lastStat t = some f ∧ w.lastRead t = some f)
  | _ => True

end World

open Cli.World

abbrev lockRules : Rules World Pid Chance Failure Call Call.Reply where
  perform := World.perform
  may := MayCall
  inv := Sound
  keeps := Kept
  keeps_refl := Kept.refl
  keeps_trans := Kept.trans

end Cli

end HuginAgent
