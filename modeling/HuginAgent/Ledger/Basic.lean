/-
The ledger of attempts: what the job manager is for, without how it does it.

An attempt is owned by the server and worked on by one engine run at a time.  The
ledger says for each attempt whether it is on record and under which lease, which
of its events are still to be acknowledged, whether a result waits for its ack,
and which job is live under its id; and for each job, an attempt as one run of it
sees it, its lease, where its stream stands, and whether it has been fenced.
Wire format, statuses, approvals and the order of SQL statements are left out.

`Ledger.Step` is everything that can happen to it.  A step is named by an `Op`,
and its guard is what may be relied on when it happens, so an invariant is proved
by looking at one ledger operation at a time.  That the manager makes no other
steps is proved in `Ledger.Refine`.
-/
import Mathlib.Data.Set.Insert
import HuginAgent.Js.Json
import HuginAgent.Jobs.Registry
import HuginAgent.Protocol.Digest
import HuginAgent.Store.EventLog

namespace HuginAgent

/-- A stored result that its ack can match: the payload is the `job.result` of this
attempt and lease, and digest and size are those of the payload. -/
structure Acknowledgeable (sha256Base64Url : JsString → JsString) (res : StoredResult) : Prop where
  parses : ∃ o, parseObject res.payload = some o ∧ (JsValue.obj o).wellFormed = true ∧
    o.get (js "type") = .lit "job.result" ∧
    o.get (js "attempt_id") = .str res.attemptId ∧
    o.get (js "lease_id") = .str res.leaseId ∧
    resultDigest sha256Base64Url o = .ok res.resultDigest
  size : res.resultSize = byteLength res.payload

/-- Its attempt and lease are read back as they were stored. -/
theorem Acknowledgeable.whole {sha : JsString → JsString} {res : StoredResult}
    (h : Acknowledgeable sha res) :
    hasLoneSurrogate res.attemptId = false ∧ hasLoneSurrogate res.leaseId = false := by
  obtain ⟨o, -, -, -, hid, hlease, hdigest⟩ := h.parses
  exact ⟨whole_of_digest hdigest hid (by decide) (by decide),
    whole_of_digest hdigest hlease (by decide) (by decide)⟩

namespace Ledger

/-- An attempt on record. -/
structure Row where
  lease : JsString
  lastSeq : Nat

/-- An attempt as one run of it sees it. -/
structure Job where
  attempt : JsString
  lease : JsString
  /-- The lease before this one, and until when it is accepted. -/
  prev : Option (JsString × Int)
  seq : Nat
  run : Option Ref
  paused : Bool
  fenced : Bool

end Ledger

@[ext]
structure Ledger where
  rows : JsString → Option Ledger.Row
  events : Table EventRow.key
  results : JsString → Option StoredResult
  live : JsString → Option Ref
  jobs : Ref → Ledger.Job
  next : Ref
  /-- The jobs whose run can call back. -/
  runs : Set Ref
  /-- The jobs whose run has said it is done. -/
  ended : Set Ref
  /-- The jobs whose run has been told to stop. -/
  cancelled : Set Ref
  now : Int

namespace Ledger

/-! ### Operations -/

def modify (L : Ledger) (r : Ref) (f : Job → Job) : Ledger :=
  { L with jobs := Function.update L.jobs r (f (L.jobs r)) }

def unregister (L : Ledger) (a : JsString) : Ledger :=
  { L with live := Function.update L.live a none }

/-- The attempt and its events go. -/
def forget (L : Ledger) (a : JsString) : Ledger :=
  { L with
    rows := Function.update L.rows a none
    events := L.events.delete fun e => e.attemptId = a }

/-- The result goes. -/
def clear (L : Ledger) (a : JsString) : Ledger :=
  { L with results := Function.update L.results a none }

def accept (L : Ledger) (a lease : JsString) (started : Bool) : Ledger :=
  { L with
    rows := Function.update L.rows a (some ⟨lease, 0⟩)
    live := Function.update L.live a (some L.next)
    jobs := Function.update L.jobs L.next
      { attempt := a
        lease
        prev := none
        seq := 0
        run := if started then some L.next else none
        paused := false
        fenced := false }
    next := L.next + 1
    runs := if started then insert L.next L.runs else L.runs }

def ack (L : Ledger) (a : JsString) (n : Nat) : Ledger :=
  { L with events := L.events.delete fun e => e.attemptId = a && e.seq ≤ n }

def unpause (L : Ledger) : Option Ref → Ledger
  | some r => L.modify r fun j => { j with paused := false }
  | none => L

def setLease (L : Ledger) (a lease : JsString) : Ledger :=
  { L with rows := Function.update L.rows a ((L.rows a).map fun row => { row with lease }) }

/-- The durable lease, and that of the live job it hits. -/
def rotate (L : Ledger) (a lease : JsString) : Option Ref → Ledger
  | some r => (L.setLease a lease).modify r fun j =>
      { j with prev := some (j.lease, L.now + leaseRotationOverlapMs), lease }
  | none => L.setLease a lease

def setResult (L : Ledger) (a : JsString) (res : StoredResult) : Ledger :=
  { L with results := Function.update L.results a (some res) }

/-- The job is cut off, its run told to stop; `ended` when the run says done at once. -/
def fence (L : Ledger) (r : Ref) (ended : Bool) : Ledger :=
  { L with
    jobs := Function.update L.jobs r
      { L.jobs r with
        fenced := true
        run := if ended then none else (L.jobs r).run }
    ended := if ended then insert r L.ended else L.ended
    cancelled := {q | (L.jobs r).run = some q} ∪ L.cancelled }

def event (L : Ledger) (r : Ref) (row : EventRow) (events : Table EventRow.key) (pause : Bool) :
    Ledger :=
  { L with
    events
    rows := Function.update L.rows row.attemptId ((L.rows row.attemptId).map fun d =>
      if d.lastSeq < row.seq then { d with lastSeq := row.seq } else d)
    jobs := Function.update L.jobs r
      { L.jobs r with
        seq := row.seq
        paused := pause || (L.jobs r).paused } }

/-- The run is done: no more calls reach it. -/
def finish (L : Ledger) (r : Ref) : Ledger :=
  { L.modify r fun j => { j with run := none } with ended := insert r L.ended }

/-- Out of the registry, unless another job has taken the place. -/
def leave (L : Ledger) (r : Ref) : Ledger :=
  if L.live (L.jobs r).attempt = some r then L.unregister (L.jobs r).attempt else L

/-! ### Steps -/

/-- The name of a step. -/
inductive Op
  | idle
  | accept (a lease : JsString) (started : Bool)
  | ack (a : JsString) (n : Nat) (unpause : Option Ref)
  | settle (a : JsString)
  | rotate (a lease : JsString) (hit : Option Ref)
  | resend (a lease : JsString) (hit : Option Ref) (res : StoredResult)
  | revoke (a : JsString) (r : Ref) (ended : Bool)
  | abandon (a : JsString) (hit : Option (Ref × Bool))
  | ackPending (a : JsString)
  | event (r : Ref) (row : EventRow) (pause : Bool)
  | burn (r : Ref)
  | finishFenced (r : Ref)
  | finishLost (r : Ref)
  | finishSaved (r : Ref) (res : StoredResult)
  | cancel (r : Ref)
  | tick (ms : Nat)
  | restart

/-- The run of `r` may still say that it is done. -/
def Active (L : Ledger) (r : Ref) : Prop := r ∈ L.runs ∧ r ∉ L.ended

/-- Which job a rotation of `a` to `lease` hits. -/
structure Hits (L : Ledger) (a lease : JsString) (hit : Option Ref) : Prop where
  live : ∀ r, hit = some r → L.live a = some r
  miss : hit = none → ∀ r, L.live a = some r → (L.jobs r).lease = lease

inductive Step (sha256Base64Url : JsString → JsString) (L : Ledger) : Op → Ledger → Prop
  | idle : Step sha256Base64Url L .idle L
  | accept {a lease : JsString} {started : Bool} (row : L.rows a = none) (live : L.live a = none) :
      Step sha256Base64Url L (.accept a lease started) (L.accept a lease started)
  | ack {a : JsString} {n : Nat} {u : Option Ref} (live : ∀ r, u = some r → L.live a = some r) :
      Step sha256Base64Url L (.ack a n u) ((L.ack a n).unpause u)
  | settle {a : JsString} {res : StoredResult} (result : L.results a = some res) :
      Step sha256Base64Url L (.settle a) (((L.unregister a).clear a).forget a)
  | rotate {a lease : JsString} {hit : Option Ref} (hits : L.Hits a lease hit) :
      Step sha256Base64Url L (.rotate a lease hit) (L.rotate a lease hit)
  | resend {a lease : JsString} {hit : Option Ref} {old res : StoredResult}
      (hits : L.Hits a lease hit) (result : L.results a = some old)
      (id : res.attemptId = a) (newLease : res.leaseId = lease)
      (good : Acknowledgeable sha256Base64Url old → Acknowledgeable sha256Base64Url res) :
      Step sha256Base64Url L (.resend a lease hit res) ((L.rotate a lease hit).setResult a res)
  | revoke {a : JsString} {r : Ref} {ended : Bool} (live : L.live a = some r)
      (active : ended = true → L.Active r) :
      Step sha256Base64Url L (.revoke a r ended) (((L.fence r ended).unregister a).forget a)
  | abandonLive {a : JsString} {r : Ref} {ended : Bool} (live : L.live a = some r)
      (active : ended = true → L.Active r) :
      Step sha256Base64Url L (.abandon a (some (r, ended)))
        ((((L.fence r ended).unregister a).clear a).forget a)
  | abandonRow {a : JsString} (live : L.live a = none) :
      Step sha256Base64Url L (.abandon a none) ((L.clear a).forget a)
  | ackPending {a : JsString} :
      Step sha256Base64Url L (.ackPending a) (((L.unregister a).clear a).forget a)
  | event {r : Ref} {row : EventRow} {pause : Bool} {events : Table EventRow.key}
      (run : r ∈ L.runs) (unfenced : (L.jobs r).fenced = false)
      (id : row.attemptId = (L.jobs r).attempt) (seq : row.seq = (L.jobs r).seq + 1)
      (insert : L.events.insert? row = some events) :
      Step sha256Base64Url L (.event r row pause) (L.event r row events pause)
  | burn {r : Ref} (run : r ∈ L.runs) (unfenced : (L.jobs r).fenced = false)
      (taken : (L.events.find? ((L.jobs r).attempt, (L.jobs r).seq + 1)).isSome) :
      Step sha256Base64Url L (.burn r) (L.modify r fun j => { j with seq := j.seq + 1 })
  | finishFenced {r : Ref} (active : L.Active r) (fenced : (L.jobs r).fenced = true) :
      Step sha256Base64Url L (.finishFenced r) ((L.finish r).leave r)
  | finishLost {r : Ref} (active : L.Active r) (unfenced : (L.jobs r).fenced = false) :
      Step sha256Base64Url L (.finishLost r) (L.finish r)
  | finishSaved {r : Ref} {res : StoredResult} (active : L.Active r)
      (unfenced : (L.jobs r).fenced = false) (id : res.attemptId = (L.jobs r).attempt)
      (lease : res.leaseId = (L.jobs r).lease) (good : Acknowledgeable sha256Base64Url res) :
      Step sha256Base64Url L (.finishSaved r res)
        (((L.finish r).setResult (L.jobs r).attempt res).leave r)
  | cancel {a : JsString} {r : Ref} (live : L.live a = some r) :
      Step sha256Base64Url L (.cancel r)
        { L with cancelled := {q | (L.jobs r).run = some q} ∪ L.cancelled }
  | tick {ms : Nat} : Step sha256Base64Url L (.tick ms) { L with now := L.now + ms }
  | restart : Step sha256Base64Url L .restart { L with live := fun _ => none, runs := ∅ }

/-! ### The invariant every step keeps -/

/-- Registry, attempts and runs fit together. -/
structure Sound (L : Ledger) : Prop where
  attempt : ∀ a r, L.live a = some r → (L.jobs r).attempt = a
  live_lt : ∀ a r, L.live a = some r → r < L.next
  unfenced : ∀ a r, L.live a = some r → (L.jobs r).fenced = false
  row : ∀ a r, L.live a = some r → ∃ row, L.rows a = some row ∧ row.lease = (L.jobs r).lease
  runs_lt : ∀ r ∈ L.runs, r < L.next
  ended_lt : ∀ r ∈ L.ended, r < L.next
  run_self : ∀ r q, (L.jobs r).run = some q → q = r
  running : ∀ r, L.Active r → (L.jobs r).run = some r
  cancelled : ∀ r, L.Active r → (L.jobs r).fenced = true → r ∈ L.cancelled

end Ledger

end HuginAgent
