/-
The live-job registry, `src/src/jobs/registry.ts`.

A `JobState` is a mutable object that the engine callbacks of its run close over,
so two of them may carry one attempt id, an old one and its replacement, and it
matters which of the two a callback belongs to.  Objects are therefore named by a
`Ref`, and the registry maps an attempt id to the `Ref` of the state that is
registered under it.
-/
import Mathlib.Data.List.AList
import Mathlib.Data.List.Perm.Subperm
import HuginAgent.Protocol.Messages

namespace HuginAgent

/-- The identity of a `JobState` object, and of the engine run it was made for. -/
abbrev Ref := Nat

/-- What `setTimeout` returns. -/
abbrev TimerId := Nat

structure JobState where
  jobId : JsString
  attemptId : JsString
  leaseId : JsString
  agentRunId : JsString
  status : JobStatus
  /-- Last emitted stream `seq`. -/
  seq : Nat
  totalBytes : Nat
  run : Option Ref
  paused : Bool
  fenced : Bool
  /-- Request id to auto-deny timer. -/
  approvalTimers : AList fun _ : JsString => TimerId
  prevLease : Option JsString
  leaseOverlapUntil : Option Int

structure JobRegistry where
  jobs : AList fun _ : JsString => Ref

namespace JobRegistry

def empty : JobRegistry := ⟨∅⟩

def get (reg : JobRegistry) (attemptId : JsString) : Option Ref := reg.jobs.lookup attemptId

def add (reg : JobRegistry) (attemptId : JsString) (state : Ref) : JobRegistry :=
  ⟨reg.jobs.insert attemptId state⟩

def remove (reg : JobRegistry) (attemptId : JsString) : JobRegistry := ⟨reg.jobs.erase attemptId⟩

def size (reg : JobRegistry) : Nat := reg.jobs.entries.length

def atCapacity (reg : JobRegistry) (maxConcurrent : Nat) : Bool := maxConcurrent ≤ reg.size

variable (reg : JobRegistry) (a b : JsString) (r : Ref)

@[simp] theorem get_empty : empty.get b = none := rfl

@[simp] theorem get_add : (reg.add a r).get b = if b = a then some r else reg.get b := by
  by_cases h : b = a
  · rw [if_pos h, h]
    exact AList.lookup_insert _
  · rw [if_neg h]
    exact AList.lookup_insert_ne h

@[simp] theorem get_remove : (reg.remove a).get b = if b = a then none else reg.get b := by
  by_cases h : b = a
  · rw [if_pos h, h]
    exact AList.lookup_erase _ _
  · rw [if_neg h]
    exact AList.lookup_erase_ne h

/-- Different ids that are all registered. -/
theorem length_le_size {keys : List JsString} (hnodup : keys.Nodup)
    (hkeys : ∀ k ∈ keys, (reg.get k).isSome) : keys.length ≤ reg.size := by
  have hsub : keys ⊆ reg.jobs.keys := by
    intro k hk
    exact AList.lookup_isSome.mp (hkeys k hk)
  have hlen : reg.jobs.keys.length = reg.size := by simp [size, AList.keys, List.keys]
  exact hlen ▸ (List.subperm_of_subset hnodup hsub).length_le

end JobRegistry

/-- `leaseMatches`, `src/src/jobs/lease.ts`. -/
def leaseMatches (current incoming : JsString) : Bool := current = incoming

end HuginAgent
