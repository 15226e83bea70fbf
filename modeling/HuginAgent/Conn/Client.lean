/-
The client of a connection, `src/conn/client.ts`.

`RelayClient` decodes every frame, turns its phase flags and delivers the message: to a waiter,
to the handlers or to the buffer.  The routing is that of a mailbox; the flags decide only what
gets that far.  So whatever is called on the client and whatever comes in, the mailbox is in
order, and what has arrived in it is what was decoded, without an acceptance that came before
the hello.
-/
import HuginAgent.Kit.Mailbox
import HuginAgent.Protocol.Inbound

namespace HuginAgent

structure RelayClient where
  authed : Bool
  v2 : Bool
  armedForAccept : Bool
  mail : Journal MessageV2

namespace RelayClient

def fresh : RelayClient where
  authed := false
  v2 := false
  armedForAccept := false
  mail := .empty MessageV2

section

variable (c : RelayClient)

def setAuthed (b : Bool) : RelayClient := { c with authed := b }

def setNegotiatedVersion (version : JsString) : RelayClient := { c with v2 := isProtocolV2 version }

def armForAccept : RelayClient := { c with armedForAccept := true }

def waitFor (wants : MessageV2 → Bool) : RelayClient × Waiter MessageV2 × Option MessageV2 :=
  let (mail, w, got) := c.mail.waitFor wants
  ({ c with mail }, w, got)

def expire (id : Nat) : RelayClient := { c with mail := c.mail.expire id }

def onMessage (h : Nat) : RelayClient × List MessageV2 :=
  let (mail, kept) := c.mail.onMessage h
  ({ c with mail }, kept)

def removeHandler (h : Nat) : RelayClient := { c with mail := c.mail.removeHandler h }

/-- The `close` event of the socket. -/
def onClose : RelayClient := { c with mail := c.mail.close }

/-- The message of a frame, unless it is rejected or discarded. -/
def admits (frame : WireFrame) : Option MessageV2 :=
  match decodeInbound frame c.authed c.v2 with
  | .error _ => none
  | .ok msg => if msg.type = .helloAccepted ∧ c.armedForAccept = false then none else some msg

/-- The flip of the phase, in the callback of the frame. -/
def flip : MessageV2 → RelayClient
  | ⟨.helloAccepted, a⟩ => (c.setNegotiatedVersion a.negotiatedVersion).setAuthed true
  | _ => c

/-- The `message` event of the socket: the message that is delivered, and where it goes. -/
def onFrame (frame : WireFrame) : RelayClient × Option (MessageV2 × Route MessageV2) :=
  match c.admits frame with
  | none => (c, none)
  | some msg =>
      let c := c.flip msg
      let (mail, route) := c.mail.deliver msg
      ({ c with mail }, some (msg, route))

end

/-! ### Whatever is called -/

inductive ClientAction
  | frame (frame : WireFrame)
  | waitFor (wants : MessageV2 → Bool)
  | timeout (id : Nat)
  | onMessage (h : Nat)
  | removeHandler (h : Nat)
  | closed
  | setAuthed (b : Bool)
  | setNegotiatedVersion (version : JsString)
  | armForAccept

def step (c : RelayClient) : ClientAction → RelayClient
  | .frame frame => (c.onFrame frame).1
  | .waitFor wants => (c.waitFor wants).1
  | .timeout id => c.expire id
  | .onMessage h => (c.onMessage h).1
  | .removeHandler h => c.removeHandler h
  | .closed => c.onClose
  | .setAuthed b => c.setAuthed b
  | .setNegotiatedVersion version => c.setNegotiatedVersion version
  | .armForAccept => c.armForAccept

/-- The message that an action brings. -/
def news (c : RelayClient) : ClientAction → Option MessageV2
  | .frame frame => c.admits frame
  | _ => none

/-- What is decoded in a run, but for the acceptances that are discarded. -/
def admitted : RelayClient → List ClientAction → List MessageV2
  | _, [] => []
  | c, act :: rest => (c.news act).toList ++ admitted (c.step act) rest

theorem flip_mail (c : RelayClient) (msg : MessageV2) : (c.flip msg).mail = c.mail := by
  unfold flip
  split <;> rfl

theorem onFrame_mail (c : RelayClient) (frame : WireFrame) :
    (c.onFrame frame).1.mail = c.mail ∧ c.admits frame = none ∨
      ∃ msg, c.admits frame = some msg ∧ (c.onFrame frame).1.mail = (c.mail.deliver msg).1 := by
  unfold onFrame
  cases hadmits : c.admits frame with
  | none => exact Or.inl ⟨rfl, rfl⟩
  | some msg =>
      refine Or.inr ⟨msg, rfl, ?_⟩
      simp only [flip_mail]

theorem kept_onFrame {c : RelayClient} (h : c.mail.Kept) (frame : WireFrame) :
    (c.onFrame frame).1.mail.Kept := by
  rcases c.onFrame_mail frame with ⟨hmail, -⟩ | ⟨msg, -, hmail⟩
  · rw [hmail]
    exact h
  · rw [hmail]
    exact Journal.kept_deliver h msg

/-- **Whatever comes in and whatever is called, the mailbox stays in order.** -/
theorem kept_step {c : RelayClient} (h : c.mail.Kept) (act : ClientAction) :
    (c.step act).mail.Kept := by
  cases act with
  | frame frame => exact kept_onFrame h frame
  | waitFor wants => exact Journal.kept_waitFor h wants
  | timeout id => exact Journal.kept_expire h id
  | onMessage handler => exact Journal.kept_onMessage h handler
  | removeHandler handler => exact Journal.kept_removeHandler h handler
  | closed => exact Journal.kept_close h
  | setAuthed b => exact h
  | setNegotiatedVersion version => exact h
  | armForAccept => exact h

theorem kept_run (acts : List ClientAction) : (Machine.run step fresh acts).mail.Kept :=
  Machine.run_invariant_all step (I := fun c => c.mail.Kept) (fun _ act h => kept_step h act)
    Journal.kept_empty acts

theorem arrived_step (c : RelayClient) (act : ClientAction) :
    (c.step act).mail.arrived = c.mail.arrived ++ (c.news act).toList := by
  cases act with
  | frame frame =>
      show (c.onFrame frame).1.mail.arrived = c.mail.arrived ++ (c.admits frame).toList
      rcases c.onFrame_mail frame with ⟨hmail, hnone⟩ | ⟨msg, hsome, hmail⟩
      · rw [hmail, hnone]
        exact (List.append_nil _).symm
      · rw [hmail, hsome, Journal.deliver_arrived]
        rfl
  | waitFor wants => exact (Journal.waitFor_frame c.mail wants).1.trans (List.append_nil _).symm
  | _ => exact (List.append_nil _).symm

/-- What has arrived is what was decoded and not discarded, in order. -/
theorem arrived_run (c : RelayClient) (acts : List ClientAction) :
    (Machine.run step c acts).mail.arrived = c.mail.arrived ++ admitted c acts := by
  induction acts generalizing c with
  | nil => exact (List.append_nil _).symm
  | cons act rest ih => rw [Machine.run_cons, ih, arrived_step, admitted, List.append_assoc]

end RelayClient

end HuginAgent
