/-
What a process learns by looking at the pidfile.

Most calls change nothing but what their process knows (`Quiet`).  Three of them read the file, ask
whether a process lives, and ask whose it is; what `inspectPidfile` makes of the answers stays right
while the others go on (`Judged`): a file that it calls stale is held by no one, now or later.
-/
import HuginAgent.Cli.Lock

namespace HuginAgent

namespace Cli

open Cli.World

variable {w w' w'' : World} {p q t u : Pid} {f : PidFile}

/-! ### Calls that leave the file -/

/-- Such a call changes nothing but what the process itself knows. -/
structure Quiet (t : Pid) (w w' : World) : Prop where
  file : w'.file = w.file
  used : w'.used = w.used
  alive : w'.alive = w.alive
  daemon : w'.daemon = w.daemon
  standing : w'.standing = w.standing
  nextId : w.nextId ≤ w'.nextId
  tmp : ∀ u, u ≠ t → w'.tmp u = w.tmp u
  lastRead : ∀ u, u ≠ t → w'.lastRead u = w.lastRead u
  lastStat : ∀ u, u ≠ t → w'.lastStat u = w.lastStat u
  read : w'.lastRead t = w.lastRead t ∨ w'.lastRead t = w.file

def Call.isQuiet : Call → Bool
  | openExclusive | writeClaim _ _ | unlink | renameTmp | spawn _ => false
  | _ => true

/-- It does not read the file either. -/
def Call.isCalm : Call → Bool
  | read => false
  | c => c.isQuiet

theorem Call.isQuiet_of_calm {c : Call} (h : c.isCalm = true) : c.isQuiet = true := by
  cases c with
  | read => rfl
  | _ => exact h

theorem Quiet.refl (t : Pid) (w : World) : Quiet t w w :=
  ⟨rfl, rfl, rfl, rfl, rfl, Nat.le_refl _, fun _ _ => rfl, fun _ _ => rfl, fun _ _ => rfl, Or.inl rfl⟩

theorem Quiet.grows (h : Quiet t w w') : w.Grows w' where
  used _ hp := by rw [h.used]; exact hp
  dead _ _ hp := by rw [h.alive]; exact hp
  daemon _ _ := by rw [h.daemon]
  nextId := h.nextId
  opened _ _ _ hq := by rw [h.standing] at hq; exact hq

theorem Quiet.kept (h : Quiet t w w') (hu : u ≠ t) : Kept u w w' where
  grows := h.grows
  standing := by rw [h.standing]
  alive ha := by rw [h.alive]; exact ha
  tmp := h.tmp u hu
  lastRead := h.lastRead u hu
  lastStat := h.lastStat u hu
  claim _ := h.file
  record _ _ _ _ := h.file

theorem Quiet.sound (h : Quiet t w w') (hw : w.Sound) : w'.Sound where
  zero := by rw [h.used, h.alive]; exact hw.zero
  used p hp := by
    rw [h.alive] at hp
    rw [h.used]
    exact hw.used p hp
  file f hf := h.grows.known (hw.file f (h.file ▸ hf))
  read p f hf := by
    by_cases hp : p = t
    · subst hp
      rcases h.read with hsame | hnew
      · exact h.grows.known (hw.read p f (hsame ▸ hf))
      · exact h.grows.known (hw.file f (hnew ▸ hf))
    · exact h.grows.known (hw.read p f (h.lastRead p hp ▸ hf))
  idle p hp := by
    rw [h.used] at hp
    rw [h.standing]
    exact hw.idle p hp
  claimer p hp := by
    rw [h.standing] at hp
    rw [h.alive]
    exact hw.claimer p hp
  child p c hp := by
    rw [h.standing] at hp
    rw [h.used, h.daemon]
    exact hw.child p c hp
  held p hp := by
    rw [Holds, h.standing, h.alive] at hp
    obtain ⟨f, hf, hof⟩ := hw.held p hp
    refine ⟨f, h.file.trans hf, ?_⟩
    rw [IsOf, h.standing]
    exact hof
  recorded f r hf htext halive hdaemon := by
    rw [h.file] at hf
    rw [h.alive] at halive
    rw [h.daemon] at hdaemon
    rw [h.standing]
    exact hw.recorded f r hf htext halive hdaemon

theorem perform_fails {c : Call} {r : Except Failure c.Reply}
    (h : w.perform t c .fails = some (r, w')) : r = .error .other ∧ w' = w := by
  rw [World.perform] at h
  split at h
  · obtain ⟨rfl, rfl⟩ := Prod.ext_iff.mp (Option.some.inj h)
    exact ⟨rfl, rfl⟩
  · cases h

theorem succeed_quiet {c : Call} (hc : c.isQuiet = true) {x : Chance} {r : Except Failure c.Reply}
    (h : w.succeed t c x = some (r, w')) : Quiet t w w' := by
  have hupdate : ∀ (g : Pid → Option PidFile) v u, u ≠ t → Function.update g t v u = g u :=
    fun g v u hu => Function.update_of_ne hu v g
  unfold World.succeed at h
  split at h
  case h_1 | h_2 | h_5 | h_7 | h_20 | h_21 => cases hc
  case h_3 =>
    obtain ⟨-, rfl⟩ := Prod.mk.inj (Option.some.inj h)
    exact ⟨rfl, rfl, rfl, rfl, rfl, Nat.le_refl _, fun _ _ => rfl, fun _ _ => rfl, hupdate _ _,
      Or.inl rfl⟩
  case h_4 =>
    obtain ⟨-, rfl⟩ := Prod.mk.inj (Option.some.inj h)
    exact ⟨rfl, rfl, rfl, rfl, rfl, Nat.le_refl _, fun _ _ => rfl, hupdate _ _, fun _ _ => rfl,
      Or.inr (Function.update_self ..)⟩
  case h_6 =>
    obtain ⟨-, rfl⟩ := Prod.mk.inj (Option.some.inj h)
    exact ⟨rfl, rfl, rfl, rfl, rfl, Nat.le_succ _, hupdate _ _, fun _ _ => rfl, fun _ _ => rfl,
      Or.inl rfl⟩
  case h_8 =>
    obtain ⟨-, rfl⟩ := Prod.mk.inj (Option.some.inj h)
    exact ⟨rfl, rfl, rfl, rfl, rfl, Nat.le_refl _, hupdate _ _, fun _ _ => rfl, fun _ _ => rfl,
      Or.inl rfl⟩
  case h_11 | h_23 =>
    obtain ⟨-, h⟩ := Option.ite_none_left_eq_some.mp h
    obtain ⟨-, rfl⟩ := Prod.mk.inj (Option.some.inj h)
    exact .refl t w
  case h_24 => cases h
  -- what is left changes nothing
  all_goals
    obtain ⟨-, rfl⟩ := Prod.mk.inj (Option.some.inj h)
    exact .refl t w

theorem perform_quiet {c : Call} (hc : c.isQuiet = true) {x : Chance} {r : Except Failure c.Reply}
    (h : w.perform t c x = some (r, w')) : Quiet t w w' := by
  by_cases hx : x = .fails
  · subst hx
    rw [(perform_fails h).2]
    exact .refl t w
  · rw [World.perform.eq_2 _ _ _ _ hx] at h
    exact succeed_quiet hc h

theorem perform_lastRead {c : Call} (hc : c.isCalm = true) {x : Chance} {r : Except Failure c.Reply}
    (h : w.perform t c x = some (r, w')) :
    w'.lastRead t = w.lastRead t := by
  by_cases hx : x = .fails
  · subst hx
    rw [(perform_fails h).2]
  · rw [World.perform.eq_2 _ _ _ _ hx] at h
    unfold World.succeed at h
    split at h
    case h_1 | h_2 | h_4 | h_5 | h_7 | h_20 | h_21 => cases hc
    case h_11 | h_23 =>
      obtain ⟨-, h⟩ := Option.ite_none_left_eq_some.mp h
      obtain ⟨-, rfl⟩ := Prod.mk.inj (Option.some.inj h)
      rfl
    case h_24 => cases h
    all_goals
      obtain ⟨-, rfl⟩ := Prod.mk.inj (Option.some.inj h)
      rfl

/-! ### What is told -/

theorem perform_probe {pid : Pid} {x : Chance} {r : Except Failure Bool}
    (h : w.perform t (.probe pid) x = some (r, w')) : r = .ok (w.alive pid) ∧ w' = w := by
  cases x <;> simp [World.perform, World.succeed, Call.fallible] at h
  exact ⟨h.1.symm, h.2.symm⟩

theorem perform_ps {pid : Pid} {cmd : JsString} {x : Chance} {r : Except Failure ProcessMatch}
    (h : w.perform t (.ps pid cmd) x = some (r, w')) :
    w' = w ∧ (r = .ok .no → w.alive pid = true → w.daemon pid = false) := by
  cases x <;> simp [World.perform, World.succeed, Call.fallible] at h
  obtain ⟨hright, rfl, rfl⟩ := h
  refine ⟨rfl, ?_⟩
  intro hno halive
  obtain rfl := Except.ok.inj hno
  simpa [halive] using hright

theorem perform_now {x : Chance} {r : Except Failure Nat}
    (h : w.perform t .now x = some (r, w')) : r = .ok w.clock ∧ w' = w := by
  cases x <;> simp [World.perform, World.succeed, Call.fallible] at h
  exact ⟨h.1.symm, h.2.symm⟩

theorem perform_childExit {pid : Pid} {x : Chance} {r : Except Failure (Option ChildExit)}
    (h : w.perform t (.childExit pid) x = some (r, w')) :
    w' = w ∧ ∀ exit, r = .ok (some exit) → w.alive pid = false := by
  cases x <;> simp [World.perform, World.succeed, Call.fallible] at h
  obtain ⟨htold, rfl, rfl⟩ := h
  refine ⟨rfl, ?_⟩
  intro exit hexit
  obtain rfl := Except.ok.inj hexit
  simpa using htold

theorem perform_stat {x : Chance} {r : Except Failure PidfileFingerprint}
    (h : w.perform t .stat x = some (r, w')) {fingerprint : PidfileFingerprint}
    (hr : r = .ok fingerprint) :
    ∃ f, w'.lastStat t = some f ∧ f.fingerprint = fingerprint := by
  subst hr
  cases x <;> simp [World.perform, World.succeed, Call.fallible] at h
  obtain ⟨hr, rfl⟩ := h
  cases hf : w.file with
  | none =>
      rw [hf] at hr
      cases hr
  | some f =>
      rw [hf] at hr
      exact ⟨f, Function.update_self .., Except.ok.inj hr⟩

theorem perform_read {x : Chance} {r : Except Failure PidfileText}
    (h : w.perform t .read x = some (r, w')) {text : PidfileText} (hr : r = .ok text) :
    ∃ f, w'.lastRead t = some f ∧ f.text = text := by
  subst hr
  cases x <;> simp [World.perform, World.succeed, Call.fallible] at h
  obtain ⟨hr, rfl⟩ := h
  cases hf : w.file with
  | none =>
      rw [hf] at hr
      cases hr
  | some f =>
      rw [hf] at hr
      exact ⟨f, Function.update_self .., Except.ok.inj hr⟩

/-! ### Looking -/

/-- What a process knows of itself is as it was. -/
structure Since (t : Pid) (w w' : World) : Prop where
  grows : w.Grows w'
  standing : w'.standing t = w.standing t
  alive : w.alive t = true → w'.alive t = true

/-- And so is what it has read. -/
structure Calm (t : Pid) (w w' : World) : Prop extends Since t w w' where
  lastRead : w'.lastRead t = w.lastRead t

theorem Since.trans (h : Since t w w') (h' : Since t w' w'') : Since t w w'' :=
  ⟨h.grows.trans h'.grows, h'.standing.trans h.standing, fun ha => h'.alive (h.alive ha)⟩

theorem Since.not_claiming (h : Since t w w') (hclaiming : (w.standing t).isClaiming = false) :
    (w'.standing t).isClaiming = false := by
  rw [h.standing]
  exact hclaiming

theorem Calm.trans (h : Calm t w w') (h' : Calm t w' w'') : Calm t w w'' :=
  ⟨h.toSince.trans h'.toSince, h'.lastRead.trans h.lastRead⟩

theorem World.Kept.calm (h : Kept t w w') : Calm t w w' :=
  ⟨⟨h.grows, h.standing, h.alive⟩, h.lastRead⟩

theorem Quiet.since (h : Quiet t w w') : Since t w w' :=
  ⟨h.grows, by rw [h.standing], fun ha => by rw [h.alive]; exact ha⟩

theorem ensures_quiet {c : Call} (hc : c.isQuiet = true) {Q : Except Failure c.Reply → World → Prop}
    (hQ : ∀ w₀ x r w₁, Kept t w w₀ → w₀.Sound → w₀.MayCall t c → w₀.perform t c x = some (r, w₁) →
      ∀ w₂, Kept t w₁ w₂ → w₂.Sound → Q r w₂) :
    Ensures lockRules t (ask c) Q w := by
  refine Ensures.ask ?_
  intro w₀ hkept hsound hmay x r w₁ hperform
  have hquiet := perform_quiet hc hperform
  refine ⟨⟨hquiet.sound hsound, fun u hu => hquiet.kept hu⟩, ?_⟩
  exact hQ w₀ x r w₁ hkept hsound hmay hperform

theorem since_of_perform {c : Call} (hc : c.isQuiet = true) {x : Chance} {r : Except Failure c.Reply}
    {w₀ w₁ w₂ : World} (h : Kept t w w₀) (hperform : w₀.perform t c x = some (r, w₁))
    (h' : Kept t w₁ w₂) : Since t w w₂ :=
  (h.calm.toSince.trans (perform_quiet hc hperform).since).trans h'.calm.toSince

theorem calm_of_perform {c : Call} (hc : c.isCalm = true) {x : Chance}
    {r : Except Failure c.Reply} {w₀ w₁ w₂ : World} (h : Kept t w w₀)
    (hperform : w₀.perform t c x = some (r, w₁)) (h' : Kept t w₁ w₂) : Calm t w w₂ where
  toSince := since_of_perform (Call.isQuiet_of_calm hc) h hperform h'
  lastRead := h'.lastRead.trans ((perform_lastRead hc hperform).trans h.lastRead)

theorem ask_calm {c : Call} (hc : c.isCalm = true) :
    Ensures lockRules t (ask c) (fun _ w' => Calm t w w') w :=
  ensures_quiet (Call.isQuiet_of_calm hc) fun _ _ _ _ h _ _ hperform _ h' _ =>
    calm_of_perform hc h hperform h'

theorem isPidAlive_spec {pid : Pid} (hused : w.used pid = true) :
    Ensures lockRules t (isPidAlive pid)
      (fun out w' => Calm t w w' ∧ (out = .ok false → w'.alive pid = false)) w := by
  rw [isPidAlive]
  split
  · rename_i hzero
    refine Ensures.pure ?_
    intro w' h hsound
    refine ⟨h.calm, fun _ => ?_⟩
    rw [hzero]
    exact hsound.zero.2
  · refine ensures_quiet rfl ?_
    intro w₀ x r w₁ h hsound _ hperform w₂ h' hsound'
    refine ⟨calm_of_perform rfl h hperform h', ?_⟩
    intro hr
    obtain ⟨rfl, rfl⟩ := perform_probe hperform
    exact h'.grows.dead pid (h.grows.used pid hused) (Except.ok.inj hr)

theorem matchProcess_spec {pid : Pid} (hused : w.used pid = true) (cmd : JsString) :
    Ensures lockRules t (matchProcess pid cmd)
      (fun out w' => Calm t w w' ∧ (out = .ok .no → w'.Gone pid)) w := by
  rw [matchProcess]
  split
  · refine Ensures.pure ?_
    intro w' h _
    refine ⟨h.calm, ?_⟩
    intro hno
    cases hno
  · refine ensures_quiet rfl ?_
    intro w₀ x r w₁ h _ _ hperform w₂ h' _
    refine ⟨calm_of_perform rfl h hperform h', ?_⟩
    intro hr
    obtain ⟨rfl, hno⟩ := perform_ps hperform
    exact h'.grows.gone ⟨h.grows.used pid hused, hno hr⟩

theorem matchRecord_spec {record : PidRecord} (hused : w.used record.pid = true) :
    Ensures lockRules t (matchRecord record)
      (fun out w' => Calm t w w' ∧ (out = .ok .no → w'.Gone record.pid)) w := by
  rw [matchRecord]
  split
  · refine Ensures.pure ?_
    intro w' h _
    refine ⟨h.calm, ?_⟩
    intro hno
    cases hno
  · exact matchProcess_spec hused _

/-- A blank file that is judged too old is not that of a start that is about to write its claim. -/
theorem isFreshFingerprint_spec (fingerprint : PidfileFingerprint) :
    Ensures lockRules t (isFreshFingerprint fingerprint)
      (fun out w' => Calm t w w' ∧ (out = .ok false → ∀ f, w'.lastRead t = some f → f.text = .blank →
        f.fingerprint = fingerprint → ∀ q, w'.standing q ≠ .opened f.id)) w := by
  rw [isFreshFingerprint]
  refine Ensures.bind (M := fun out w' => Calm t w w' ∧ ∀ now, out = .ok now →
    ¬ now < fingerprint.mtimeMs + activeClaimGraceMs → ∀ f, w'.lastRead t = some f →
      f.text = .blank → f.fingerprint = fingerprint → ∀ q, w'.standing q ≠ .opened f.id) ?_ ?_ ?_
  · refine ensures_quiet rfl ?_
    intro w₀ x r w₁ h hsound hmay hperform w₂ h' _
    refine ⟨calm_of_perform rfl h hperform h', ?_⟩
    obtain ⟨rfl, rfl⟩ := perform_now hperform
    intro now hnow hold f hf hblank hsame q hq
    rw [h'.lastRead] at hf
    obtain rfl := Except.ok.inj hnow
    have hopened := h'.grows.opened q f.id (hsound.read t f hf).id hq
    exact hold (hsame ▸ hmay f q hf hblank hopened)
  · intro now w₁ hsound hM
    refine Ensures.pure ?_
    intro w₂ h' _
    refine ⟨hM.1.trans h'.calm, ?_⟩
    intro hstale f hf hblank hsame q hq
    rw [h'.lastRead] at hf
    have hopened := h'.grows.opened q f.id (hsound.read t f hf).id hq
    exact hM.2 now rfl (of_decide_eq_false (Except.ok.inj hstale)) f hf hblank hsame q hopened
  · intro e w₁ _ hM
    refine ⟨hM.1, ?_⟩
    intro hc
    cases hc

theorem orAbsent_spec {α : Type} {p : Script α} {M : Except Failure α → World → Prop}
    (h : Ensures lockRules t p M w) :
    Ensures lockRules t (orAbsent p)
      (fun out w' => ∃ got, M got w' ∧ ∀ a, out = .ok (some a) → got = .ok a) w := by
  rw [orAbsent]
  refine Ensures.tryCatch (Ensures.always (Ensures.bind (Q := fun out w' =>
    ∃ got, M got w' ∧ ∀ a, out = .ok (some a) → got = .ok a) h.always ?_ ?_)) ?_ ?_
  · intro a w₁ _ hM
    refine Ensures.pure ?_
    intro w₂ hkept hsound
    refine ⟨.ok a, hM w₂ hkept hsound, ?_⟩
    intro a' hsame
    rw [Option.some.inj (Except.ok.inj hsame)]
  · intro e w₁ hsound hM
    refine ⟨.error e, hM w₁ (Kept.refl t w₁) hsound, ?_⟩
    intro a hc
    cases hc
  · exact fun out w₁ hsound hM => hM w₁ (Kept.refl t w₁) hsound
  · intro e w₁ _ hM
    have hend : ∀ (out : Except Failure (Option α)) w₂, (∀ a, out ≠ .ok (some a)) → Kept t w₁ w₂ →
        w₂.Sound → ∃ got, M got w₂ ∧ ∀ a, out = .ok (some a) → got = .ok a := by
      intro out w₂ hout hkept hsound
      obtain ⟨got, hgot, -⟩ := hM w₂ hkept hsound
      exact ⟨got, hgot, fun a hc => absurd hc (hout a)⟩
    split
    · exact Ensures.pure fun w₂ => hend _ w₂ (by intro a hc; cases hc)
    · exact Ensures.throw fun w₂ => hend _ w₂ (by intro a hc; cases hc)

/-- The snapshot is what the text that was last read is taken for. -/
def Snapped (t : Pid) (w : World) (snapshot : PidfileSnapshot) : Prop :=
  ∀ fingerprint, snapshot.fingerprint = some fingerprint →
    ∃ f, w.lastRead t = some f ∧ snapshot = f.text.snapshot fingerprint

theorem snapshot_fingerprint (text : PidfileText) (fingerprint : PidfileFingerprint) :
    (text.snapshot fingerprint).fingerprint = some fingerprint := by
  cases text <;> simp only [PidfileText.snapshot] <;> (try split) <;> rfl

theorem readPidfileSnapshot_spec :
    Ensures lockRules t readPidfileSnapshot
      (fun out w' => Since t w w' ∧ ∀ snapshot, out = .ok snapshot → Snapped t w' snapshot) w := by
  have hnone : ∀ w', Since t w w' → Ensures lockRules t (pure .none : Script PidfileSnapshot)
      (fun out w' => Since t w w' ∧ ∀ snapshot, out = .ok snapshot → Snapped t w' snapshot) w' := by
    intro w' h
    refine Ensures.pure ?_
    intro w'' h' _
    refine ⟨h.trans h'.calm.toSince, ?_⟩
    intro snapshot hsame fingerprint hc
    obtain rfl := Except.ok.inj hsame
    cases hc
  rw [readPidfileSnapshot]
  refine Ensures.bind (orAbsent_spec (ask_calm rfl)) ?_ ?_
  · rintro found w₁ - ⟨-, h, -⟩
    cases found with
    | none => exact hnone w₁ h.toSince
    | some fingerprint =>
        refine Ensures.bind (orAbsent_spec (M := fun out w' => Since t w₁ w' ∧ ∀ text, out = .ok text →
          ∃ f, w'.lastRead t = some f ∧ f.text = text) (ensures_quiet rfl ?_)) ?_ ?_
        · intro w₀ x r w₂ h' _ _ hperform w₃ h'' _
          refine ⟨since_of_perform rfl h' hperform h'', ?_⟩
          intro text hr
          rw [h''.lastRead]
          exact perform_read hperform hr
        · rintro found w₂ - ⟨got, ⟨h', hread⟩, hgot⟩
          cases found with
          | none => exact hnone w₂ (h.toSince.trans h')
          | some text =>
              refine Ensures.pure ?_
              intro w₃ h'' _
              refine ⟨(h.toSince.trans h').trans h''.calm.toSince, ?_⟩
              intro snapshot hsame fingerprint' hfingerprint
              obtain rfl := Except.ok.inj hsame
              obtain ⟨f, hf, htext⟩ := hread text (hgot text rfl)
              rw [snapshot_fingerprint] at hfingerprint
              obtain rfl := Option.some.inj hfingerprint
              refine ⟨f, h''.lastRead.trans hf, ?_⟩
              rw [htext]
        · rintro e w₂ - ⟨got, ⟨h', -⟩, -⟩
          refine ⟨h.toSince.trans h', ?_⟩
          intro snapshot hc
          cases hc
  · rintro e w₁ - ⟨got, h, -⟩
    refine ⟨h.toSince, ?_⟩
    intro snapshot hc
    cases hc

/-! ### Judging -/

theorem snapshot_claim {text : PidfileText} {c : ClaimRecord} {fp fp' : PidfileFingerprint}
    (h : text.snapshot fp = .claim c fp') : text = .claim c := by
  cases text <;> simp only [PidfileText.snapshot] at h <;> (try split at h) <;> cases h
  rfl

theorem snapshot_record {text : PidfileText} {r : PidRecord} {fp fp' : PidfileFingerprint}
    (h : text.snapshot fp = .record r fp') :
    text.pid = some r.pid ∧ text ≠ .blank ∧ (∀ c, text ≠ .claim c) ∧ ∀ r', text = .record r' → r' = r := by
  cases text <;> simp only [PidfileText.snapshot] at h <;> (try split at h) <;> cases h
  · exact ⟨rfl, nofun, nofun, nofun⟩
  · exact ⟨rfl, nofun, nofun, fun r' hr => (PidfileText.record.inj hr).symm⟩

/-- A text that is taken for nothing names no one. -/
theorem snapshot_invalid {text : PidfileText} {fp fp' : PidfileFingerprint}
    (h : text.snapshot fp = .invalid fp') {pid : Pid} (hpid : text.pid = some pid) : pid = 0 := by
  cases text with
  | number n =>
      rw [PidfileText.snapshot] at h
      split at h
      · cases h
      · rename_i hpos
        exact (Option.some.inj hpid).symm.trans (Nat.eq_zero_of_not_pos hpos)
  | record r =>
      rw [PidfileText.snapshot] at h
      split at h
      · cases h
      · rename_i hpos
        rw [isPidRecord, decide_eq_true_eq] at hpos
        exact (Option.some.inj hpid).symm.trans (Nat.eq_zero_of_not_pos hpos)
  | claim c =>
      rw [PidfileText.snapshot] at h
      split at h
      · cases h
      · rename_i hpos
        have howner : c.ownerPid = some pid := hpid
        rw [isClaimRecord, howner, Option.all_some, decide_eq_true_eq] at hpos
        exact Nat.eq_zero_of_not_pos hpos
  | blank => cases hpid
  | other => cases hpid

structure Judged (t : Pid) (w : World) (i : PidfileInspection) : Prop where
  snapshot : ∀ fp, i.snapshot.fingerprint = some fp →
    ∃ f, w.lastRead t = some f ∧ (i.state = .stale → f.fingerprint = fp → w.Stale f)
  record : ∀ r, i.record = some r → w.used r.pid = true ∧ (i.state = .stale → w.Gone r.pid)
  running : i.state = .running → i.record ≠ none
  ownership : i.ownership = some .no → i.state = .stale
  absent : i.state = .none → i.snapshot = .none

theorem Judged.calm {i : PidfileInspection} (hw : w.Sound) (h : Judged t w i) (hcalm : Calm t w w') :
    Judged t w' i where
  snapshot fp hfp := by
    obtain ⟨f, hf, hstale⟩ := h.snapshot fp hfp
    refine ⟨f, hcalm.lastRead.trans hf, ?_⟩
    intro hstate hsame
    exact hcalm.grows.stale (hw.read t f hf) (hstale hstate hsame)
  record r hr :=
    ⟨hcalm.grows.used _ (h.record r hr).1, fun hstate => hcalm.grows.gone ((h.record r hr).2 hstate)⟩
  running := h.running
  ownership := h.ownership
  absent := h.absent

/-- What is no record is judged by the file alone. -/
theorem judged_inspected {state : PidfileState} {snapshot : PidfileSnapshot}
    (hstate : state ≠ .running) (habsent : state = .none → snapshot = .none)
    (h : ∀ fp, snapshot.fingerprint = some fp →
      ∃ f, w.lastRead t = some f ∧ (state = .stale → f.fingerprint = fp → w.Stale f)) :
    Judged t w (inspected state snapshot) where
  snapshot := h
  record r hc := by cases hc
  running hc := absurd hc hstate
  ownership hc := by cases hc
  absent := habsent

theorem isActiveClaim_spec {c : ClaimRecord} (hused : ∀ q, c.ownerPid = some q → w.used q = true)
    (fingerprint : PidfileFingerprint) :
    Ensures lockRules t (isActiveClaim c fingerprint)
      (fun out w' => Calm t w w' ∧ (out = .ok false → ∀ q, c.ownerPid = some q → w'.alive q = false))
      w := by
  rw [isActiveClaim]
  cases howner : c.ownerPid with
  | some q =>
      refine (isPidAlive_spec (hused q howner)).mono ?_
      rintro out w' - ⟨hcalm, hdead⟩
      refine ⟨hcalm, ?_⟩
      intro hout q' hq'
      rw [← Option.some.inj hq']
      exact hdead hout
  | none =>
      refine (isFreshFingerprint_spec fingerprint).mono ?_
      rintro out w' - ⟨hcalm, -⟩
      refine ⟨hcalm, ?_⟩
      intro _ q hc
      cases hc

theorem inspectPidfile_spec :
    Ensures lockRules t inspectPidfile
      (fun out w' => Since t w w' ∧ ∀ i, out = .ok i → Judged t w' i) w := by
  have hend : ∀ i w', w'.Sound → Since t w w' → Judged t w' i →
      Ensures lockRules t (pure i : Script PidfileInspection)
        (fun out w' => Since t w w' ∧ ∀ i, out = .ok i → Judged t w' i) w' := by
    intro i w' hsound h hjudged
    refine Ensures.pure ?_
    intro w'' h' _
    refine ⟨h.trans h'.calm.toSince, ?_⟩
    intro i' hsame
    obtain rfl := Except.ok.inj hsame
    exact hjudged.calm hsound h'.calm
  have herror : ∀ (e : Failure) w', Since t w w' → Since t w w' ∧ ∀ i : PidfileInspection,
      (.error e : Except Failure PidfileInspection) = .ok i → Judged t w' i := by
    intro e w' h
    refine ⟨h, ?_⟩
    intro i hc
    cases hc
  rw [inspectPidfile]
  refine Ensures.bind readPidfileSnapshot_spec ?_ ?_
  · rintro snapshot w₁ hw₁ ⟨h, hread⟩
    have hsnapped := hread snapshot rfl
    cases snapshot with
    | none => exact hend _ w₁ hw₁ h (judged_inspected nofun (fun _ => rfl) nofun)
    | claim c fp =>
        obtain ⟨f, hf, htext⟩ := hsnapped fp rfl
        have hclaim := snapshot_claim htext.symm
        have hused : ∀ q, c.ownerPid = some q → w₁.used q = true := by
          intro q hq
          refine (hw₁.read t f hf).pid q ?_
          rw [hclaim]
          exact hq
        refine Ensures.bind (isActiveClaim_spec hused fp) ?_ ?_
        · rintro active w₂ hw₂ ⟨hcalm, hdead⟩
          refine hend _ w₂ hw₂ (h.trans hcalm.toSince) (judged_inspected ?_ ?_ ?_)
          · cases active <;> nofun
          · cases active <;> nofun
          intro fp' hfp'
          refine ⟨f, hcalm.lastRead.trans hf, ?_⟩
          intro hstate _
          cases active with
          | true => cases hstate
          | false =>
              refine ⟨?_, ?_, ?_⟩
              · intro hc
                cases hclaim.symm.trans hc
              · intro c' q hc' hq
                obtain rfl := PidfileText.claim.inj (hclaim.symm.trans hc')
                exact hdead rfl q hq
              · intro r hc
                cases hclaim.symm.trans hc
        · exact fun e w₂ _ hM => herror e w₂ (h.trans hM.1.toSince)
    | invalid fp =>
        obtain ⟨f, hf, htext⟩ := hsnapped fp rfl
        refine Ensures.bind (isFreshFingerprint_spec fp) ?_ ?_
        · rintro fresh w₂ hw₂ ⟨hcalm, hold⟩
          refine hend _ w₂ hw₂ (h.trans hcalm.toSince) (judged_inspected ?_ ?_ ?_)
          · cases fresh <;> nofun
          · cases fresh <;> nofun
          intro fp' hfp'
          obtain rfl := Option.some.inj hfp'
          refine ⟨f, hcalm.lastRead.trans hf, ?_⟩
          intro hstate hsame
          cases fresh with
          | true => cases hstate
          | false =>
              refine ⟨fun hblank => hold rfl f (hcalm.lastRead.trans hf) hblank hsame, ?_, ?_⟩
              · intro c q hc hq
                have hzero : q = 0 := snapshot_invalid htext.symm (by rw [hc]; exact hq)
                rw [hzero]
                exact hw₂.zero.2
              · intro r hr
                have hzero : r.pid = 0 := snapshot_invalid htext.symm (by rw [hr]; rfl)
                rw [hzero]
                refine ⟨hw₂.zero.1, ?_⟩
                intro halive
                rw [hw₂.zero.2] at halive
                cases halive
        · exact fun e w₂ _ hM => herror e w₂ (h.trans hM.1.toSince)
    | record r fp =>
        obtain ⟨f, hf, htext⟩ := hsnapped fp rfl
        obtain ⟨hpid, hblank, hclaim, hrecord⟩ := snapshot_record htext.symm
        have hused := (hw₁.read t f hf).pid r.pid hpid
        -- a record is judged by its process
        have hjudged : ∀ w₂ state ownership, Calm t w₁ w₂ → (state = .stale → w₂.Gone r.pid) →
            (ownership = some .no → state = .stale) → state ≠ .none →
            Judged t w₂ ⟨⟨state, some r, ownership, isLegacyRecord r⟩, .record r fp⟩ := by
          intro w₂ state ownership hcalm hgone hno hthere
          refine ⟨?_, ?_, nofun, hno, fun hc => absurd hc hthere⟩
          · intro fp' _
            refine ⟨f, hcalm.lastRead.trans hf, ?_⟩
            intro hstate _
            refine ⟨fun hc => absurd hc hblank, fun c _ hc => absurd hc (hclaim c), ?_⟩
            intro r' hr'
            rw [hrecord r' hr']
            exact hgone hstate
          · intro r' hr'
            obtain rfl := Option.some.inj hr'
            exact ⟨hcalm.grows.used _ hused, hgone⟩
        refine Ensures.bind (isPidAlive_spec hused) ?_ ?_
        · rintro alive w₂ hw₂ ⟨hcalm, hdead⟩
          have hused' := hcalm.grows.used _ hused
          cases alive with
          | false =>
              refine hend _ w₂ hw₂ (h.trans hcalm.toSince) (hjudged w₂ _ _ hcalm ?_ nofun nofun)
              intro _
              refine ⟨hused', ?_⟩
              intro halive
              rw [hdead rfl] at halive
              cases halive
          | true =>
              refine Ensures.bind (matchRecord_spec hused') ?_ ?_
              · rintro ownership w₃ hw₃ ⟨hcalm', hno⟩
                have hcalm₃ := hcalm.trans hcalm'
                refine hend _ w₃ hw₃ (h.trans hcalm₃.toSince) (hjudged w₃ _ _ hcalm₃ ?_ ?_ ?_)
                · intro hstate
                  split at hstate
                  · rename_i hnot
                    exact hno (by rw [hnot])
                  · cases hstate
                · exact fun hc => if_pos (Option.some.inj hc)
                · split <;> nofun
              · exact fun e w₃ _ hM => herror e w₃ (h.trans (hcalm.trans hM.1).toSince)
        · exact fun e w₂ _ hM => herror e w₂ (h.trans hM.1.toSince)
  · exact fun e w₁ _ hM => herror e w₁ hM.1

end Cli

end HuginAgent
