/-
# `Hla4.Rti.Loops` — the tasks of a node, and the channels they push into

`handle_connection_via_transport` runs three tasks for a connection.  They and
the tasks of the other connections share the node, and a channel of frames for
each connection, which its writer empties in order.  What a task does without
another in between is a section:

    session loop   receive a frame
                   a call: dispatch it · push the response · for each callback,
                     claim a number from the target's counter · push the frame
                   a control frame: push the reply, with no number
                   the end: close the session
    heartbeat      at a tick: claim a number · push the frame
    writer         only its end matters: no frame can be pushed after it

A push waits while the channel is full, so any time may pass before it.  A
heartbeat is aborted at the teardown, wherever it waits.  A session whose
response cannot be pushed ends, and drops the callbacks of the call.

A task is written as it stands before its next section (`LoopTask`), and what a
section can come to is said once (`Hub.sect_effect`).
-/
import Hla4.Lib.Sections
import Hla4.Rti.Node
import Hla4.Wire.Framing

namespace Hla4

open Lib

/-! ## Frames and channels -/

inductive FrameContent
  | callResponse (responseTo : Int32) (response : Resp)
  | callback (body : CallbackRequest)
  | heartbeat
  | heartbeatResponse
  | sessionTerminated

/-- A frame to a federate. -/
structure OutFrame where
  sequenceNumber : Int32
  sessionId : UInt64
  lastReceived : Int32
  content : FrameContent

def OutFrame.callback? (f : OutFrame) : Option CallbackRequest :=
  match f.content with
  | .callback body => some body
  | _ => none

/-- The outbound side of a `ConnectionHandle`. -/
structure Channel where
  nextOutboundSeq : Int32
  /-- the writer still takes frames out -/
  isOpen : Bool
  /-- history: the frames pushed, in order -/
  pushed : List OutFrame

namespace Channel

variable (c : Channel)

def new : Channel := ⟨initialSequenceNumber, true, []⟩

/-- The number the next claim gets. -/
def nextNumber : Int32 := (claimNextOutboundSeq c.nextOutboundSeq).1

def claim : Channel := { c with nextOutboundSeq := (claimNextOutboundSeq c.nextOutboundSeq).2 }

/-- A push fails if the writer is gone. -/
def push (f : OutFrame) : Channel := if c.isOpen then { c with pushed := c.pushed ++ [f] } else c

def shut : Channel := { c with isOpen := false }

/-- The numbers of the frames that have one. -/
def numbers : List Int32 :=
  (c.pushed.map OutFrame.sequenceNumber).filter (· ≠ noSequenceNumber)

/-- The callbacks among the frames. -/
def callbacks : List CallbackRequest := c.pushed.filterMap OutFrame.callback?

variable {c} {f : OutFrame}

theorem isOpen_push : (c.push f).isOpen = c.isOpen := by
  rw [push]
  split <;> rfl

theorem nextOutboundSeq_push : (c.push f).nextOutboundSeq = c.nextOutboundSeq := by
  rw [push]
  split <;> rfl

theorem push_of_closed (h : c.isOpen = false) : c.push f = c := by
  rw [push, h]
  rfl

end Channel

/-- The node, and the channels of its connections. -/
structure Hub where
  node : Node
  channels : Nat → Channel

namespace Hub

def new : Hub := ⟨.new, fun _ => .new⟩

/-- An operation on one channel. -/
def on (hub : Hub) (ch : Nat) (f : Channel → Channel) : Hub :=
  { hub with channels := Function.update hub.channels ch (f (hub.channels ch)) }

/-- A step of the node. -/
def advance (hub : Hub) (e : NodeEvent) : Hub := { hub with node := hub.node.step e }

variable {hub : Hub} {ch ch' : Nat} {f : Channel → Channel}

theorem on_self : (hub.on ch f).channels ch = f (hub.channels ch) := Function.update_self ..

theorem on_of_ne (h : ch' ≠ ch) : (hub.on ch f).channels ch' = hub.channels ch' :=
  Function.update_of_ne h ..

end Hub

/-! ## Tasks -/

/-- A task of a connection. -/
inductive Loop
  | session (connection : ConnectionHandle)
  | heartbeat (connection : ConnectionHandle)

/-- A frame a session loop receives. -/
inductive InFrame
  | callRequest (seq : Int32) (env : CallEnv) (request : CallRequest)
  | terminateSession (seq : Int32)
  | heartbeat (seq : Int32)
  /-- a callback response, a heartbeat response, or an unexpected frame -/
  | other

/-- What the environment decides at a section. -/
inductive LoopInput
  | frame (f : InFrame)
  /-- the timer of a heartbeat; a task that has work goes on with it -/
  | tick
  /-- the peer is gone, silent for too long, or the node shuts down; for a
  heartbeat, the abort -/
  | stop

/-- A task, before its next section. -/
inductive LoopTask
  | idle
  | responding (seq : Int32) (response : Resp) (callbacks : List OutboundCallback)
  | acknowledging (seq : Int32)
  | terminating (seq : Int32)
  | stamping (callbacks : List OutboundCallback)
  | pushing (ch : Nat) (frame : OutFrame) (rest : List OutboundCallback)
  | beating (ch : Nat) (number : Int32)
  | closing
  | stopped

/-- Callbacks, and where they are to be pushed. -/
def addressed (callbacks : List OutboundCallback) : List (Nat × CallbackRequest) :=
  callbacks.map fun cb => (cb.target.channel, cb.body)

namespace LoopTask

/-- The number the task has claimed and not yet pushed, and of which channel. -/
def holding : LoopTask → Option (Nat × Int32)
  | pushing ch frame _ => some (ch, frame.sequenceNumber)
  | beating ch number => some (ch, number)
  | _ => none

/-- The callback that is pushed next. -/
def inHand : LoopTask → Option (Nat × CallbackRequest)
  | pushing ch frame _ => frame.callback?.map fun body => (ch, body)
  | _ => none

/-- The callbacks the task has still to push. -/
def due : LoopTask → List (Nat × CallbackRequest)
  | responding _ _ callbacks => addressed callbacks
  | stamping callbacks => addressed callbacks
  | pushing ch frame rest => (frame.callback?.map fun body => (ch, body)).toList ++ addressed rest
  | _ => []

end LoopTask

namespace Hub

variable (hub : Hub)

/-- `OutboundCallback::into_frame`, without the claim. -/
def callbackFrame (cb : OutboundCallback) : OutFrame :=
  ⟨(hub.channels cb.target.channel).nextNumber, cb.target.sessionId, noSequenceNumber,
    .callback cb.body⟩

/-- A frame that answers frame number `seq` of the peer, and has no number
itself. -/
def answerFrame (connection : ConnectionHandle) (seq : Int32) (content : FrameContent) : OutFrame :=
  ⟨noSequenceNumber, connection.sessionId, seq, content⟩

/-- A session loop has received a frame. -/
def receive (t : Transport) (s : Session) : InFrame → Hub × LoopTask
  | .callRequest seq env request =>
    let o := hub.node.dispatchCall t s env request
    ({ hub with node := o.node }, .responding seq o.response o.callbacks)
  | .terminateSession seq => (hub, .terminating seq)
  | .heartbeat seq => (hub, .acknowledging seq)
  | .other => (hub, .idle)

/-- A session loop waits for a frame, once its session is opened. -/
def await (t : Transport) (x : LoopInput) : Hub × LoopTask :=
  match hub.node.sessions.lookup t with
  | none => (hub, .idle)
  | some s =>
    match x with
    | .frame f => hub.receive t s f
    | .tick => (hub, .idle)
    | .stop => (hub, .closing)

/-- `run_session_loop`, and the teardown after it. -/
def sessionSect (connection : ConnectionHandle) (x : LoopInput) : LoopTask → Hub × LoopTask
  | .idle => hub.await connection.channel x
  | .responding seq response callbacks =>
    if (hub.channels connection.channel).isOpen then
      (hub.on connection.channel (·.push (answerFrame connection seq (.callResponse seq response))),
        .stamping callbacks)
    else (hub, .closing)
  | .acknowledging seq =>
    (hub.on connection.channel (·.push (answerFrame connection seq .heartbeatResponse)), .idle)
  | .terminating seq =>
    (hub.on connection.channel (·.push (answerFrame connection seq .sessionTerminated)), .closing)
  | .stamping [] => (hub, .idle)
  | .stamping (cb :: rest) =>
    (hub.on cb.target.channel Channel.claim,
      .pushing cb.target.channel (hub.callbackFrame cb) rest)
  | .pushing ch frame rest => (hub.on ch (·.push frame), .stamping rest)
  | .closing => (hub.advance (.close connection.channel), .stopped)
  | .beating ch number => (hub, .beating ch number)
  | .stopped => (hub, .stopped)

/-- At a tick, once the connection is opened, the heartbeat claims a number. -/
def beat (connection : ConnectionHandle) : LoopInput → Hub × LoopTask
  | .tick =>
    if connection.channel < hub.node.nextTransport then
      (hub.on connection.channel Channel.claim,
        .beating connection.channel (hub.channels connection.channel).nextNumber)
    else (hub, .idle)
  | .stop => (hub, .stopped)
  | .frame _ => (hub, .idle)

/-- The heartbeat task. -/
def heartbeatSect (connection : ConnectionHandle) (x : LoopInput) : LoopTask → Hub × LoopTask
  | .idle => hub.beat connection x
  | .beating ch number =>
    match x with
    | .stop => (hub, .stopped)
    | _ =>
      (hub.on ch (·.push ⟨number, connection.sessionId, noSequenceNumber, .heartbeat⟩),
        if (hub.channels ch).isOpen then .idle else .stopped)
  | task => (hub, task)

def sect (p : Loop × LoopTask) (x : LoopInput) : Hub × (Loop × LoopTask) :=
  match p.1 with
  | .session connection =>
    ((hub.sessionSect connection x p.2).1, (p.1, (hub.sessionSect connection x p.2).2))
  | .heartbeat connection =>
    ((hub.heartbeatSect connection x p.2).1, (p.1, (hub.heartbeatSect connection x p.2).2))

/-- The channel that a task is about to claim a number of. -/
def claims? : Loop × LoopTask → LoopInput → Option Nat
  | (.session _, .stamping (cb :: _)), _ => some cb.target.channel
  | (.heartbeat connection, .idle), .tick =>
    if connection.channel < hub.node.nextTransport then some connection.channel else none
  | _, _ => none

/-- The task has a response to push, and its channel is closed. -/
def refuses : Loop × LoopTask → Bool
  | (.session connection, .responding ..) => !(hub.channels connection.channel).isOpen
  | _ => false

end Hub

/-- What happens beside the tasks. -/
inductive HubAct
  /-- a step of the node that is not a session loop's -/
  | node (e : NodeEvent)
  /-- the writer of a connection ends -/
  | writerGone (ch : Nat)

/-- Calls and the end of a session are sections of the session loop. -/
def NodeEvent.isBackground : NodeEvent → Bool
  | call .. => false
  | close _ => false
  | _ => true

def Hub.act (hub : Hub) : HubAct → Hub
  | .node e => if e.isBackground then hub.advance e else hub
  | .writerGone ch => hub.on ch Channel.shut

/-- The tasks of the node, interleaved. -/
def looping : Sections Hub (Loop × LoopTask) LoopInput HubAct where
  sect := Hub.sect
  act := Hub.act

/-- Before the first section of each. -/
def Hub.start {I : Type} (loops : I → Loop) : Hub × (I → Loop × LoopTask) :=
  (.new, fun i => (loops i, .idle))

/-! ## What a section can come to -/

/-- What a section does to the hub and to the task. -/
inductive LoopEffect (hub : Hub) (x : LoopInput) (p : Loop × LoopTask) : Hub → LoopTask → Prop
  | stays : LoopEffect hub x p hub p.2
  | rests {task' : LoopTask} (hfree : p.2.holding = none) (hfree' : task'.holding = none)
      (hdue : task'.due = p.2.due) : LoopEffect hub x p hub task'
  | calls {t : Transport} {env : CallEnv} {request : CallRequest} {o : CallOutcome}
      (seq : Int32) (htask : p.2 = .idle) (ho : hub.node.outcome t env request = some o) :
      LoopEffect hub x p (hub.advance (.call t env request))
        (.responding seq o.response o.callbacks)
  /-- a response or a reply, with no number -/
  | answers {task' : LoopTask} {t : Transport} {frame : OutFrame} (hfree : p.2.holding = none)
      (hfree' : task'.holding = none) (hdue : task'.due = p.2.due)
      (hnumber : frame.sequenceNumber = noSequenceNumber) (hbody : frame.callback? = none) :
      LoopEffect hub x p (hub.on t (·.push frame)) task'
  /-- the response cannot be pushed -/
  | drops {seq : Int32} {response : Resp} {callbacks : List OutboundCallback}
      (htask : p.2 = .responding seq response callbacks) (hshut : hub.refuses p = true) :
      LoopEffect hub x p hub .closing
  | claims {task' : LoopTask} {ch : Nat} (hclaims : hub.claims? p x = some ch)
      (hfree : p.2.holding = none)
      (hnumber : task'.holding = some (ch, (hub.channels ch).nextNumber))
      (hdue : task'.due = p.2.due) : LoopEffect hub x p (hub.on ch Channel.claim) task'
  | pushes {task' : LoopTask} {ch : Nat} {frame : OutFrame}
      (hnumber : p.2.holding = some (ch, frame.sequenceNumber)) (hfree : task'.holding = none)
      (hhand : p.2.inHand = frame.callback?.map fun body => (ch, body))
      (hdue : p.2.due = p.2.inHand.toList ++ task'.due) :
      LoopEffect hub x p (hub.on ch (·.push frame)) task'
  /-- a heartbeat is aborted before its push -/
  | aborts {ch : Nat} {number : Int32} (htask : p.2 = .beating ch number) (hx : x = .stop) :
      LoopEffect hub x p hub .stopped
  | closes {t : Transport} (htask : p.2 = .closing) :
      LoopEffect hub x p (hub.advance (.close t)) .stopped

namespace Hub

variable {hub : Hub}

theorem receive_effect {t : Transport} {s : Session} (hs : hub.node.sessions.lookup t = some s)
    (connection : ConnectionHandle) (f : InFrame) :
    LoopEffect hub (.frame f) (.session connection, .idle) (hub.receive t s f).1
      (hub.receive t s f).2 := by
  cases f with
  | callRequest seq env request =>
    have ho : hub.node.outcome t env request = some (hub.node.dispatchCall t s env request) := by
      rw [Node.outcome, hs, Option.map_some]
    have hnode : hub.advance (.call t env request) =
        { hub with node := (hub.node.dispatchCall t s env request).node } := by
      rw [advance, Node.step, ho]
    rw [receive, ← hnode]
    exact .calls _ rfl ho
  | terminateSession | heartbeat => exact .rests rfl rfl rfl
  | other => exact .stays

theorem await_effect (connection : ConnectionHandle) (x : LoopInput) :
    LoopEffect hub x (.session connection, .idle) (hub.await connection.channel x).1
      (hub.await connection.channel x).2 := by
  rw [await]
  cases hs : hub.node.sessions.lookup connection.channel with
  | none => exact .stays
  | some =>
    cases x with
    | frame f => exact receive_effect hs connection f
    | tick => exact .stays
    | stop => exact .rests rfl rfl rfl

theorem sessionSect_effect (connection : ConnectionHandle) (x : LoopInput) (task : LoopTask) :
    LoopEffect hub x (.session connection, task) (hub.sessionSect connection x task).1
      (hub.sessionSect connection x task).2 := by
  cases task with
  | idle => exact await_effect connection x
  | responding =>
    rw [sessionSect]
    split
    · exact .answers rfl rfl rfl rfl rfl
    · next hshut => exact .drops rfl (by simpa [refuses] using hshut)
  | acknowledging | terminating => exact .answers rfl rfl rfl rfl rfl
  | stamping callbacks =>
    cases callbacks with
    | nil => exact .rests rfl rfl rfl
    | cons => exact .claims rfl rfl rfl rfl
  | pushing => exact .pushes rfl rfl rfl rfl
  | closing => exact .closes rfl
  | beating => exact .stays
  | stopped => exact .stays

theorem beat_effect (connection : ConnectionHandle) (x : LoopInput) :
    LoopEffect hub x (.heartbeat connection, .idle) (hub.beat connection x).1
      (hub.beat connection x).2 := by
  cases x with
  | frame => exact .stays
  | stop => exact .rests rfl rfl rfl
  | tick =>
    rw [beat]
    split
    · next hopened => exact .claims (by rw [claims?, if_pos hopened]) rfl rfl rfl
    · exact .stays

theorem heartbeatSect_effect (connection : ConnectionHandle) (x : LoopInput) (task : LoopTask) :
    LoopEffect hub x (.heartbeat connection, task) (hub.heartbeatSect connection x task).1
      (hub.heartbeatSect connection x task).2 := by
  cases task with
  | idle => exact beat_effect connection x
  | beating ch number =>
    have pushed : LoopEffect hub x (.heartbeat connection, .beating ch number)
        (hub.on ch (·.push ⟨number, connection.sessionId, noSequenceNumber, .heartbeat⟩))
        (if (hub.channels ch).isOpen then .idle else .stopped) := by
      split
      · exact .pushes rfl rfl rfl rfl
      · exact .pushes rfl rfl rfl rfl
    cases x with
    | stop => exact .aborts rfl rfl
    | frame => exact pushed
    | tick => exact pushed
  | _ => exact .stays

/-- **What a section can come to.** -/
theorem sect_effect (p : Loop × LoopTask) (x : LoopInput) :
    LoopEffect hub x p (hub.sect p x).1 (hub.sect p x).2.2 := by
  obtain ⟨loop, task⟩ := p
  cases loop with
  | session connection => exact sessionSect_effect connection x task
  | heartbeat connection => exact heartbeatSect_effect connection x task

end Hub

end Hla4
