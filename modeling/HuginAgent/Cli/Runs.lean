/-
Runs of many commands over one pidfile.

In a run whose steps all meet `MayStep` the pidfile is a lock (`pidfile_lock`).  Three things do not
meet it: an unlink of another file than its process has read, for the removal of the source is a
`statSync` and then an unlink; a claim that takes longer than the grace to be written; and a child
that outlives a start which could not record it.  Each of these lets two starts hold the file at once
(`lock_shared`).
-/
import HuginAgent.Cli.Starting

namespace HuginAgent

namespace Cli

open Cli.World

variable {w w' w'' : World} {p q t u : Pid} {f : PidFile}

/-! ### Many processes -/

namespace World

/-- No start is under way.  A file may be left over, the daemon of an earlier start may live, which is
then the one recorded there, and other processes may live. -/
structure Fresh (w : World) : Prop where
  zero : w.used 0 = true ∧ w.alive 0 = false
  used : ∀ p, w.alive p = true → w.used p = true
  file : ∀ f, w.file = some f → w.Known f
  lastRead : ∀ p, w.lastRead p = none
  standing : ∀ p, w.standing p = .idle ∨ w.used p = true ∧
    ∃ child, w.standing p = .recorded child ∧ w.used child = true ∧ w.daemon child = true
  held : ∀ p child, w.standing p = .recorded child → w.alive child = true →
    ∃ f r, w.file = some f ∧ f.owner = some p ∧ f.text = .record r ∧ r.pid = child
  recorded : ∀ f r, w.file = some f → f.text = .record r → w.alive r.pid = true →
    w.daemon r.pid = true → ∃ p, w.standing p = .recorded r.pid ∧ f.owner = some p

theorem Fresh.not_claiming (h : w.Fresh) (p : Pid) : (w.standing p).isClaiming = false := by
  rcases h.standing p with hidle | ⟨-, child, hrecorded, -⟩
  · rw [hidle]
    rfl
  · rw [hrecorded]
    rfl

theorem Fresh.sound (h : w.Fresh) : w.Sound where
  zero := h.zero
  used := h.used
  file := h.file
  read p f hf := by
    rw [h.lastRead] at hf
    cases hf
  idle p hp := by
    rcases h.standing p with hidle | ⟨hused, -⟩
    · exact hidle
    · rw [hp] at hused
      cases hused
  claimer p hp := by
    rw [h.not_claiming] at hp
    cases hp
  child p c hp := by
    rcases h.standing p with hidle | ⟨-, child, hrecorded, hchild⟩
    · rw [hidle] at hp
      rcases hp with hp | hp <;> cases hp
    · rw [hrecorded] at hp
      rcases hp with hp | hp
      · cases hp
      · rw [← Standing.recorded.inj hp]
        exact hchild
  held p hp := by
    rcases hp with hclaiming | ⟨child, hrecorded, halive⟩
    · rw [h.not_claiming] at hclaiming
      cases hclaiming
    · obtain ⟨f, r, hf, hown, htext, hpid⟩ := h.held p child hrecorded halive
      refine ⟨f, hf, hown, ?_⟩
      rw [hrecorded]
      exact ⟨r, htext, hpid⟩
  recorded := h.recorded

theorem perform_alive {c : Call} {x : Chance} {r : Except Failure c.Reply}
    (h : w.perform t c x = some (r, w')) (hp : w.alive p = true) : w'.alive p = true := by
  by_cases hc : c.isQuiet = true
  · rw [(perform_quiet hc h).alive]
    exact hp
  · cases c with
    | openExclusive =>
        rcases perform_openExclusive h with ⟨-, rfl⟩ | ⟨-, -, dev, ino, rfl⟩ <;> exact hp
    | writeClaim fd claim =>
        rcases perform_writeClaim h with ⟨-, rfl⟩ | ⟨-, size, rfl⟩ <;> exact hp
    | unlink => rcases perform_unlink h with ⟨-, rfl⟩ | ⟨-, rfl⟩ <;> exact hp
    | renameTmp => rcases perform_renameTmp h with ⟨-, rfl⟩ | ⟨f, -, -, rfl⟩ <;> exact hp
    | spawn cmd =>
        rcases perform_spawn h with ⟨-, rfl⟩ | ⟨pid, -, -, -, rfl⟩
        · exact hp
        · rw [World.fork]
          simp only [Function.update_apply]
          split
          · rfl
          · exact hp
    | _ => exact absurd rfl hc

theorem born_grows {pid : Pid} (hpid : w.used pid = false) : w.Grows (w.born pid) where
  used p hp := by
    rw [born]
    simp only [Function.update_apply]
    split
    · rfl
    · exact hp
  dead p hp hdead := by
    rw [born]
    simp only [Function.update_apply]
    split
    · rename_i hpp
      rw [hpp, hpid] at hp
      cases hp
    · exact hdead
  daemon _ _ := rfl
  nextId := Nat.le_refl _
  opened _ _ _ h := h

theorem born_alive {pid : Pid} (hp : w.alive p = true) : (w.born pid).alive p = true := by
  rw [born]
  simp only [Function.update_apply]
  split
  · rfl
  · exact hp

theorem born_kept {pid : Pid} (hpid : w.used pid = false) : Kept u w (w.born pid) :=
  ⟨born_grows hpid, rfl, born_alive, rfl, rfl, rfl, fun _ => rfl, fun _ _ _ _ => rfl⟩

theorem born_sound {pid : Pid} (hw : w.Sound) (hpid : w.used pid = false) (hpos : pid ≠ 0) :
    (w.born pid).Sound where
  zero := ⟨(born_grows hpid).used 0 hw.zero.1, (Function.update_of_ne hpos.symm ..).trans hw.zero.2⟩
  used p hp := by
    rw [born] at hp ⊢
    simp only [Function.update_apply] at hp ⊢
    split at hp
    · rw [if_pos (by assumption)]
    · rw [if_neg (by assumption)]
      exact hw.used p hp
  file f hf := (born_grows hpid).known (hw.file f hf)
  read p f hf := (born_grows hpid).known (hw.read p f hf)
  idle p hp := by
    refine hw.idle p (Bool.eq_false_of_not_eq_true ?_)
    intro hused
    rw [(born_grows hpid).used p hused] at hp
    cases hp
  claimer p hp := born_alive (hw.claimer p hp)
  child p c hp := ⟨(born_grows hpid).used c (hw.child p c hp).1, (hw.child p c hp).2⟩
  held p hp := by
    refine hw.held p ?_
    rcases hp with hclaiming | ⟨child, hrecorded, halive⟩
    · exact Or.inl hclaiming
    · exact Or.inr ⟨child, hrecorded,
        (born_grows hpid).alive (hw.child p child (Or.inr hrecorded)).1 halive⟩
  recorded f r hf htext halive hdaemon :=
    hw.recorded f r hf htext
      ((born_grows hpid).alive ((hw.file f hf).pid r.pid (by rw [htext]; rfl)) halive) hdaemon

theorem gone_alive {pid : Pid} (hp : (w.gone pid).alive p = true) : w.alive p = true := by
  rw [gone] at hp
  simp only [Function.update_apply] at hp
  split at hp
  · cases hp
  · exact hp

theorem gone_grows (w : World) (pid : Pid) : w.Grows (w.gone pid) where
  used _ hp := hp
  dead p _ hdead := by
    refine Bool.eq_false_of_not_eq_true ?_
    intro halive
    rw [gone_alive halive] at hdead
    cases hdead
  daemon _ _ := rfl
  nextId := Nat.le_refl _
  opened q fd hfd hq := by
    refine Turn.opened_of_update (t := pid) rfl ?_ hfd hq
    intro fd hopened
    have hnot := release_not_claiming (w.standing pid)
    rw [hopened] at hnot
    cases hnot

theorem gone_kept {pid : Pid} (hu : u ≠ pid) : Kept u w (w.gone pid) where
  grows := gone_grows w pid
  standing := Function.update_of_ne hu ..
  alive ha := (Function.update_of_ne hu ..).trans ha
  tmp := rfl
  lastRead := rfl
  lastStat := rfl
  claim _ := rfl
  record _ _ _ _ := rfl

theorem gone_sound {pid : Pid} (hw : w.Sound)
    (hchild : ∀ child, w.standing pid = .spawned child → w.alive child = false) :
    (w.gone pid).Sound where
  zero := ⟨hw.zero.1, (gone_grows w pid).dead 0 hw.zero.1 hw.zero.2⟩
  used p hp := hw.used p (gone_alive hp)
  file f hf := (gone_grows w pid).known (hw.file f hf)
  read p f hf := (gone_grows w pid).known (hw.read p f hf)
  idle p hp := by
    by_cases hpp : p = pid
    · rw [hpp, show (w.gone pid).standing pid = _ from Function.update_self ..,
        hw.idle pid (hpp ▸ hp)]
      rfl
    · rw [show (w.gone pid).standing p = _ from Function.update_of_ne hpp ..]
      exact hw.idle p hp
  claimer p hp := by
    by_cases hpp : p = pid
    · rw [hpp, show (w.gone pid).standing pid = _ from Function.update_self ..,
        release_not_claiming] at hp
      cases hp
    · rw [show (w.gone pid).standing p = _ from Function.update_of_ne hpp ..] at hp
      exact (Function.update_of_ne hpp ..).trans (hw.claimer p hp)
  child p c hp := by
    by_cases hpp : p = pid
    · rw [hpp, show (w.gone pid).standing pid = _ from Function.update_self ..] at hp
      rcases hp with hspawned | hrecorded
      · have hnot := release_not_claiming (w.standing pid)
        rw [hspawned] at hnot
        cases hnot
      · exact hw.child pid c (release_recorded hrecorded)
    · rw [show (w.gone pid).standing p = _ from Function.update_of_ne hpp ..] at hp
      exact hw.child p c hp
  held p hp := by
    by_cases hpp : p = pid
    · rw [hpp] at hp ⊢
      rw [Holds, show (w.gone pid).standing pid = _ from Function.update_self ..,
        release_not_claiming] at hp
      rcases hp with hc | ⟨child, hrecorded, halive⟩
      · cases hc
      · rcases release_recorded hrecorded with hspawned | hrec
        · have hdead := hchild child hspawned
          rw [gone_alive halive] at hdead
          cases hdead
        · obtain ⟨f, hf, hown, hof⟩ := hw.held pid (Or.inr ⟨child, hrec, gone_alive halive⟩)
          refine ⟨f, hf, hown, ?_⟩
          rw [show (w.gone pid).standing pid = _ from Function.update_self .., hrec]
          rw [hrec] at hof
          exact hof
    · rw [Holds, show (w.gone pid).standing p = _ from Function.update_of_ne hpp ..] at hp
      have hheld : w.Holds p := by
        rcases hp with hclaiming | ⟨child, hrec, halive⟩
        · exact Or.inl hclaiming
        · exact Or.inr ⟨child, hrec, gone_alive halive⟩
      obtain ⟨f, hf, hof⟩ := hw.held p hheld
      refine ⟨f, hf, ?_⟩
      rw [IsOf, show (w.gone pid).standing p = _ from Function.update_of_ne hpp ..]
      exact hof
  recorded f r hf htext halive hdaemon := by
    obtain ⟨p, hrecorded, hown⟩ := hw.recorded f r hf htext (gone_alive halive) hdaemon
    refine ⟨p, ?_, hown⟩
    by_cases hpp : p = pid
    · rw [hpp, show (w.gone pid).standing pid = _ from Function.update_self .., ← hpp, hrecorded]
      rfl
    · exact (Function.update_of_ne hpp ..).trans hrecorded

end World

namespace System

/-- The call of a step meets `MayCall`, and no start ends whose child lives without a record. -/
def MayStep (s : System) : SystemAction → Prop
  | .call pid _ => ∀ c rest, s.procs pid = some (.call c rest) → s.world.MayCall pid c
  | .die pid => ∀ child, s.world.standing pid = .spawned child → s.world.alive child = false
  | _ => True

/-- No process takes away, or changes, a claim of a live claimer or the record of a live daemon,
other than its own. -/
structure Respects (s : System) (act : SystemAction) : Prop where
  claim : ∀ p f, s.world.file = some f → (s.world.standing p).isClaiming = true →
    s.world.IsOf p f → (∀ x, act ≠ .call p x) → (s.step act).world.file = some f
  record : ∀ f r, s.world.file = some f → f.text = .record r → s.world.alive r.pid = true →
    s.world.daemon r.pid = true → (∀ p x, f.owner = some p → act ≠ .call p x) →
    (s.step act).world.file = some f

/-- At most one start is between its claim and the death of the daemon it spawned. -/
def Exclusive (s : System) : Prop := ∀ p q, s.world.Holds p → s.world.Holds q → p = q

/-- Every process keeps the lock. -/
abbrev Running (s : System) : Prop := Pool lockRules (fun _ _ _ => True) s.world s.procs

/-- What leaves the file as it is respects what is there. -/
theorem respects_of_file {s : System} {act : SystemAction}
    (h : (s.step act).world.file = s.world.file) : s.Respects act :=
  ⟨fun _ _ hf _ _ _ => h.trans hf, fun _ _ hf _ _ _ _ => h.trans hf⟩

theorem call_respects {s : System} {pid : Pid} {x : Chance} {w' : World}
    (hstep : (s.step (.call pid x)).world = w') (hw : s.world.Sound)
    (halive : ∀ p, s.world.alive p = true → w'.alive p = true)
    (hkept : ∀ u, u ≠ pid → Kept u s.world w') : s.Respects (.call pid x) where
  claim p f hf hclaiming _ hother := by
    have hp : p ≠ pid := by
      rintro rfl
      exact hother x rfl
    rw [hstep, (hkept p hp).claim hclaiming]
    exact hf
  record f r hf htext hlives hdaemon hother := by
    obtain ⟨p, hrecorded, hown⟩ := hw.recorded f r hf htext hlives hdaemon
    have hp : p ≠ pid := by
      rintro rfl
      exact hother p x hown rfl
    rw [hstep, (hkept p hp).record r.pid hrecorded (hw.used r.pid hlives) (halive r.pid hlives)]
    exact hf

theorem running_same {s : System} (h : s.Running) {act : SystemAction} (hsame : s.step act = s) :
    (s.step act).Running ∧ s.Respects act := by
  refine ⟨?_, respects_of_file (by rw [hsame])⟩
  rw [hsame]
  exact h

/-- **A step that meets `MayStep` keeps the lock.** -/
theorem running_step {s : System} (h : s.Running) {act : SystemAction} (hmay : s.MayStep act) :
    (s.step act).Running ∧ s.Respects act := by
  cases act with
  | launch pid command =>
      by_cases hfresh : s.world.used pid = true ∨ pid = 0
      · exact running_same h (by rw [step, if_pos hfresh])
      · obtain ⟨hused, hpos⟩ := not_or.mp hfresh
        have hunused := Bool.eq_false_of_not_eq_true hused
        have hstep : s.step (.launch pid command) =
            ⟨s.world.born pid, Function.update s.procs pid (some (command.script pid))⟩ := by
          rw [step, if_neg hfresh]
        refine ⟨?_, respects_of_file (by rw [hstep]; rfl)⟩
        rw [hstep]
        refine (h.kept (World.born_sound h.inv hunused hpos) fun u _ _ =>
          World.born_kept hunused).set ?_
        intro p hp
        obtain rfl := Option.some.inj hp
        exact script_spec command ⟨h.inv.idle pid hunused, Function.update_self ..⟩
  | call pid x =>
      cases hproc : s.procs pid with
      | none => exact running_same h (by rw [step, hproc])
      | some prog =>
          cases prog with
          | done out => exact running_same h (by rw [step, hproc])
          | call c rest =>
              cases hperform : s.world.perform pid c x with
              | none =>
                  refine running_same h ?_
                  rw [step, hproc]
                  simp only [hperform]
              | some out =>
                  obtain ⟨r, w'⟩ := out
                  have hstep : s.step (.call pid x) =
                      ⟨w', Function.update s.procs pid (some (rest r))⟩ := by
                    rw [step, hproc]
                    simp only [hperform]
                  obtain ⟨hpool, hkept⟩ := h.call hproc (hmay c rest hproc) hperform
                  refine ⟨hstep ▸ hpool, call_respects (by rw [hstep]) h.inv ?_ hkept⟩
                  exact fun p hp => World.perform_alive hperform hp
  | die pid =>
      by_cases hstays : ((s.world.standing pid).isClaiming && !s.finished pid) = true
      · exact running_same h (by rw [step, if_pos hstays])
      · have hstep : s.step (.die pid) = ⟨s.world.gone pid, Function.update s.procs pid none⟩ := by
          rw [step, if_neg hstays]
        refine ⟨?_, respects_of_file (by rw [hstep]; rfl)⟩
        rw [hstep]
        refine ⟨World.gone_sound h.inv hmay, ?_⟩
        intro u prog hu
        have hu : Function.update s.procs pid none u = some prog := hu
        have hne : u ≠ pid := by
          rintro rfl
          rw [Function.update_self] at hu
          cases hu
        rw [Function.update_of_ne hne] at hu
        exact (h.each u prog hu).kept (World.gone_kept hne)
  | tick clock =>
      have hkept : ∀ u, Kept u s.world { s.world with clock } := fun u =>
        ⟨⟨fun _ h => h, fun _ _ h => h, fun _ _ => rfl, Nat.le_refl _, fun _ _ _ h => h⟩, rfl,
          fun h => h, rfl, rfl, rfl, fun _ => rfl, fun _ _ _ _ => rfl⟩
      have hsound : ({ s.world with clock } : World).Sound := by
        have hw := h.inv
        have hgrows := (hkept 0).grows
        exact ⟨hw.zero, hw.used, fun f hf => hgrows.known (hw.file f hf),
          fun p f hf => hgrows.known (hw.read p f hf), hw.idle, hw.claimer, hw.child, hw.held,
          hw.recorded⟩
      exact ⟨h.kept hsound fun u _ _ => hkept u, respects_of_file rfl⟩

/-! ### Whole runs -/

/-- Every step of the run respects what others hold, and in every state it comes to the file is held
once. -/
structure KeepsLock (s : System) (acts : List SystemAction) : Prop where
  respects : ∀ pre act post, acts = pre ++ act :: post →
    (Machine.run step s pre).Respects act
  exclusive : ∀ pre post, acts = pre ++ post → (Machine.run step s pre).Exclusive

theorem running_run {s : System} (h : s.Running) {acts : List SystemAction}
    (hmay : Machine.Along step MayStep s acts) : (Machine.run step s acts).Running :=
  Machine.run_invariant step (I := Running) (fun _ _ hs hact => (running_step hs hact).1) h hmay

end System

/-- No process has begun. -/
def System.start (w : World) : System := ⟨w, fun _ => none⟩

/-- **In every run whose steps meet `MayStep` the pidfile is a lock.**  No claim of a live claimer and
no record of a live daemon is taken away by another process, and two starts never both have a daemon
that lives. -/
theorem pidfile_lock (w : World) (hw : w.Fresh) (acts : List SystemAction)
    (hmay : Machine.Along System.step System.MayStep (.start w) acts) :
    (System.start w).KeepsLock acts := by
  have hstart : (System.start w).Running := ⟨hw.sound, nofun⟩
  constructor
  · intro pre act post hsplit
    rw [hsplit] at hmay
    obtain ⟨hpre, hact, -⟩ := Machine.along_append.mp hmay
    exact (System.running_step (System.running_run hstart hpre) hact).2
  · intro pre post hsplit
    rw [hsplit] at hmay
    have hrunning := System.running_run hstart (Machine.along_append.mp hmay).1
    exact fun p q hp hq => hrunning.inv.exclusive hp hq

/-! ### Runs that are not -/

/-- An empty directory, and no process. -/
def emptyWorld : World where
  clock := 0
  file := none
  nextId := 0
  tmp _ := none
  used p := p == 0
  alive _ := false
  daemon _ := false
  standing _ := .idle
  lastRead _ := none
  lastStat _ := none

/-- The record of a daemon that has ended is left over. -/
def leftoverWorld : World :=
  { emptyWorld with
    file := some ⟨0, none, ⟨0, 0, 0, 0⟩, .record ⟨9, []⟩⟩
    nextId := 1
    used := fun p => p == 0 || p == 9 }

theorem emptyWorld_fresh : emptyWorld.Fresh where
  zero := ⟨rfl, rfl⟩
  used p hp := by cases hp
  file f hf := by cases hf
  lastRead _ := rfl
  standing _ := Or.inl rfl
  held p child hp := by cases hp
  recorded f r hf := by cases hf

theorem leftoverWorld_fresh : leftoverWorld.Fresh where
  zero := ⟨rfl, rfl⟩
  used p hp := by cases hp
  file f hf := by
    obtain rfl := Option.some.inj hf
    refine ⟨Nat.lt_succ_self 0, ?_⟩
    intro pid hpid
    obtain rfl := Option.some.inj hpid
    rfl
  lastRead _ := rfl
  standing _ := Or.inl rfl
  held p child hp := by cases hp
  recorded f r hf htext halive := by cases halive

def plainOptions : Options where
  logfile := []
  command := .ok []
  marker := []
  readyTimeoutMs := 0
  readyStableMs := 0
  force := false
  stopTimeoutMs := 0
  polls := 0

/-- A process begins to start a daemon. -/
def launches (pid : Pid) : SystemAction := .launch pid (.start plainOptions)

/-- The next calls of a process, one for each chance. -/
def calls (pid : Pid) (chances : List Chance) : List SystemAction := chances.map (.call pid)

/-- What a start finds when the file is there and is judged by a look at one process, or by its age:
it may not be created, `statSync`, `readFileSync`, and the look. -/
def looks : List Chance := [.inode 0 0 0, .none, .none, .none]

/-- From the claim to the child. -/
def claims (child : Pid) : List Chance :=
  [.inode 0 0 1, .none, .inode 0 0 1, .none, .size 0, .child child]

/-- From the child to its record. -/
def records : List Chance := [.none, .inode 0 1 1, .none]

/-- Process 1 comes to a second `statSync` of what is left over; process 2 takes that away and starts
its daemon; process 1 takes away the record of that daemon. -/
def staleRace : List SystemAction :=
  launches 1 :: calls 1 (looks ++ [.none]) ++
    launches 2 :: calls 2 (looks ++ [.none, .none] ++ claims 3 ++ records) ++
    calls 1 (.none :: claims 4 ++ records)

/-- The same with a `stop` as process 1; process 4 then finds no file. -/
def stopRace : List SystemAction :=
  .launch 1 (.stop plainOptions) :: calls 1 [.none, .none, .none, .none, .none, .none] ++
    launches 2 :: calls 2 (looks ++ [.none, .none] ++ claims 3 ++ records) ++
    calls 1 [.none] ++ launches 4 :: calls 4 [.inode 0 0 0]

/-- Process 1 has created the file and takes longer than the grace to write its claim. -/
def slowClaim : List SystemAction :=
  launches 1 :: calls 1 [.inode 0 0 0] ++ .tick activeClaimGraceMs ::
    launches 2 :: calls 2 (looks ++ [.none, .none, .inode 0 0 0])

/-- The record of process 1 cannot be written; it signals its child and gives the file back. -/
def earlyRelease : List SystemAction :=
  launches 1 :: calls 1 (claims 3 ++ [.none, .fails, .none, .none, .none, .none]) ++
    launches 2 :: calls 2 [.inode 0 0 0]

/-- The record cannot be written and the child not even be signalled, and process 1 ends. -/
def leftChild : List SystemAction :=
  launches 1 :: calls 1 (claims 3 ++ [.none, .fails, .none, .none, .fails]) ++ .die 1 ::
    launches 2 :: calls 2 (looks ++ [.none, .none, .inode 0 0 0])

theorem not_keepsLock {w : World} {acts : List SystemAction} {p q : Pid} (hpq : p ≠ q)
    (hp : (Machine.run System.step (.start w) acts).world.Holds p)
    (hq : (Machine.run System.step (.start w) acts).world.Holds q) :
    ¬ (System.start w).KeepsLock acts :=
  fun h => hpq (h.exclusive acts [] (List.append_nil acts).symm p q hp hq)

/-- **Each of the five lets two starts hold the file at once.** -/
theorem lock_shared :
    (leftoverWorld.Fresh ∧ ¬ (System.start leftoverWorld).KeepsLock staleRace ∧
        ¬ (System.start leftoverWorld).KeepsLock stopRace) ∧
      emptyWorld.Fresh ∧ ¬ (System.start emptyWorld).KeepsLock slowClaim ∧
        ¬ (System.start emptyWorld).KeepsLock earlyRelease ∧
        ¬ (System.start emptyWorld).KeepsLock leftChild := by
  refine ⟨⟨leftoverWorld_fresh, ?_, ?_⟩, emptyWorld_fresh, ?_, ?_, ?_⟩
  · refine not_keepsLock (p := 1) (q := 2) (by decide) ?_ ?_
    · exact Or.inr ⟨4, by decide +kernel, by decide +kernel⟩
    · exact Or.inr ⟨3, by decide +kernel, by decide +kernel⟩
  · refine not_keepsLock (p := 2) (q := 4) (by decide) ?_ ?_
    · exact Or.inr ⟨3, by decide +kernel, by decide +kernel⟩
    · exact Or.inl (by decide +kernel)
  · refine not_keepsLock (p := 1) (q := 2) (by decide) ?_ ?_
    · exact Or.inl (by decide +kernel)
    · exact Or.inl (by decide +kernel)
  · refine not_keepsLock (p := 1) (q := 2) (by decide) ?_ ?_
    · exact Or.inr ⟨3, by decide +kernel, by decide +kernel⟩
    · exact Or.inl (by decide +kernel)
  · refine not_keepsLock (p := 1) (q := 2) (by decide) ?_ ?_
    · exact Or.inr ⟨3, by decide +kernel, by decide +kernel⟩
    · exact Or.inl (by decide +kernel)

/-! ### A run that is -/

/-- `MayCall`, as far as it can be read off the world. -/
def World.isTimely (w : World) (t : Pid) : Call → Bool
  | .now => (w.lastRead t).all fun f =>
      f.text ≠ .blank || w.clock < f.fingerprint.mtimeMs + activeClaimGraceMs
  | .unlink =>
      (match w.standing t with
        | .spawned child => !w.alive child
        | _ => true) &&
      ((w.standing t).isClaiming ||
        w.file.all fun f => w.lastStat t = some f && w.lastRead t = some f)
  | _ => true

theorem World.mayCall_of_timely {c : Call} (h : w.isTimely t c = true) : w.MayCall t c := by
  cases c with
  | now =>
      intro f q hread hblank _
      simpa [World.isTimely, hread, hblank] using h
  | unlink =>
      rw [World.isTimely, Bool.and_eq_true] at h
      refine ⟨?_, ?_⟩
      · intro child hspawned
        have h := h.1
        rw [hspawned] at h
        simpa using h
      · intro hclaiming f hf
        simpa [hclaiming, hf] using h.2
  | _ => trivial

def System.isTimely (s : System) : SystemAction → Bool
  | .call pid _ =>
      match s.procs pid with
      | some (.call c _) => s.world.isTimely pid c
      | _ => true
  | .die pid =>
      match s.world.standing pid with
      | .spawned child => !s.world.alive child
      | _ => true
  | _ => true

theorem System.mayStep_of_timely {s : System} {act : SystemAction} (h : s.isTimely act = true) :
    s.MayStep act := by
  cases act with
  | call pid x =>
      intro c rest hproc
      rw [System.isTimely, hproc] at h
      exact World.mayCall_of_timely h
  | die pid =>
      intro child hspawned
      rw [System.isTimely, hspawned] at h
      simpa using h
  | launch _ _ | tick _ => trivial

/-- Process 1 takes away what is left over and starts its daemon; process 2 finds it running. -/
def cleanStart : List SystemAction :=
  launches 1 :: calls 1 (looks ++ [.none, .none] ++ claims 3 ++ records) ++
    launches 2 :: calls 2 looks

theorem pidfile_lock_sample :
    Machine.Along System.step System.MayStep (.start leftoverWorld) cleanStart ∧
      (System.start leftoverWorld).KeepsLock cleanStart := by
  have htimely : Machine.Along System.step (fun s act => s.isTimely act = true)
      (.start leftoverWorld) cleanStart := by decide +kernel
  have hmay := Machine.along_mono (fun _ _ => System.mayStep_of_timely) htimely
  exact ⟨hmay, pidfile_lock leftoverWorld leftoverWorld_fresh cleanStart hmay⟩

end Cli

end HuginAgent
