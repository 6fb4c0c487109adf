/-
# `Hla4.Federate.Calls` — calls on an ambassador, and their responses

An `RtiAmbassador` is shared by any number of tasks.  A call claims a sequence
number, registers a oneshot under it in the pending map, sends its frame and
waits; the session loop of the RTI echoes the number with the response; the pump
takes the oneshot registered under the number out of the map and completes it.
Every step of these is a section:

    call         claim · register · send · await
    disconnect   claim, and send the terminate frame · drain the pending map ·
                 wake the waiters, one by one · abort the pump
    pump         receive a frame · handle it: look the number up · complete;
                 on a read failure, drain and wake the waiters · stop
    session      take a frame, answer it

`toServer` and `toClient` are what is on its way: the outbound channel of a side,
its writer and the transport, in order.  It may be lost.  An aborted pump stops
where it next waits for a frame, so it may still handle the one it has.

What the RTI computes is a parameter (`Service`): any state, any answer to what
was read.  What holds of all calls together is in `Hla4.Federate.Correlation`.

**History.**  Claims are counted, and a call is known by the number of its
claim; the RTI's answers are listed.  A frame carries the number of its call, or
the index of its answer, and so does what a oneshot is given.
-/
import Hla4.Lib.HashMap
import Hla4.Lib.Sections
import Hla4.Wire.Codec

namespace Hla4

open Lib

/-! ## The model -/

/-- A protobuf message that holds a value of one kind: how it is written, and
what bytes are read as. -/
structure Envelope (α : Type) where
  encode : α → Bytes
  decode : Bytes → Except String (Option α)
  decode_encode : ∀ a, decode (encode a) = .ok (some a)
  encode_ne_nil : ∀ a, encode a ≠ []

/-- An RTI to one session: how requests and responses are written, and what it
answers to what it has read, if its session loop runs. -/
structure Service (R E Req Rep : Type) where
  requests : Envelope Req
  responses : Envelope Rep
  answer : R → E → Except String (Option Req) → Option (R × Rep)

inductive CallError
  | closed
  | decode (error : String)
  | unexpectedResponse
deriving DecidableEq

/-- What the RTI computed, for the request of which call (history). -/
structure Answer (Req Rep : Type) where
  call : Option Nat
  request : Except String (Option Req)
  response : Rep

/-- A call that has returned, and the answer it was given (history). -/
structure Return (Req Rep : Type) where
  call : Nat
  request : Req
  result : Except CallError Rep
  answer : Option Nat

/-- The channel between a call and the pump. -/
inductive Oneshot
  | waiting
  | sent (body : Bytes) (answer : Option Nat)
  | dropped

def Oneshot.dropSender : Oneshot → Oneshot
  | waiting => dropped
  | o => o

/-- The pump, before its next section. -/
inductive Pump
  | receiving
  | handling (f : Frame) (answer : Option Nat)
  | completing (call : Nat) (body : Bytes) (answer : Option Nat)
  | failing (waiters : List Nat)
  | stopped

/-- An ambassador, the RTI, and what is on its way between them. -/
structure Link (R Req Rep : Type) where
  sessionId : UInt64
  counter : Int32
  pending : HashMap Int32 Nat
  oneshots : Nat → Oneshot
  pump : Pump
  aborted : Bool
  toServer : List (Frame × Option Nat)
  toClient : List (Frame × Option Nat)
  /-- the session loop runs -/
  serving : Bool
  rti : R
  /-- history: what each number was claimed for -/
  claimed : List (Option Req)
  answers : List (Answer Req Rep)
  returned : List (Return Req Rep)

/-- A task that uses the ambassador, before its next section. -/
inductive CallTask (Req : Type)
  | idle
  | registering (n : Nat) (seq : Int32) (request : Req)
  | sending (n : Nat) (seq : Int32) (request : Req)
  | awaiting (n : Nat) (request : Req)
  | terminating (seq : Int32)
  | draining
  | waking (waiters : List Nat)
  | aborting

inductive Operation (Req : Type)
  | call (request : Req)
  | disconnect

/-- What the environment decides: what an idle task does next, and whether the
writer is gone. -/
structure CallInput (Req : Type) where
  operation : Option (Operation Req)
  sendFails : Bool

/-- What happens besides. -/
inductive LinkAct (R E : Type)
  /-- the session loop takes the next frame -/
  | serve (env : E)
  /-- the next section of the pump; a read may fail -/
  | pump (fails : Bool)
  | callback (seq : Int32) (payload : Bytes)
  | heartbeat (seq : Int32)
  /-- other sessions -/
  | elsewhere (rti : R)
  /-- the session loop ends by itself -/
  | endSession
  | loseRequests
  | loseResponses

variable {R E Req Rep : Type} (svc : Service R E Req Rep)

/-- What a call makes of the body it is given. -/
def Service.result (body : Bytes) : Except CallError Rep :=
  if body = [] then .error .closed
  else
    match svc.responses.decode body with
    | .error e => .error (.decode e)
    | .ok none => .error .unexpectedResponse
    | .ok (some response) => .ok response

/-- `hla_call_request_frame`. -/
def Service.requestFrame (sessionId : UInt64) (seq : Int32) (request : Req) : Frame :=
  .ofPayload (svc.requests.encode request) seq sessionId 0 .hlaCallRequest

def Service.responseFrame (sessionId : UInt64) (seq : Int32) (response : Rep) : Frame :=
  .ofPayload (HlaCallResponsePayload.encode ⟨seq, svc.responses.encode response⟩) noSequenceNumber
    sessionId seq .hlaCallResponse

namespace Link

variable (l : Link R Req Rep)

def claim (what : Option Req) : Link R Req Rep :=
  { l with counter := (claimNextOutboundSeq l.counter).2, claimed := l.claimed ++ [what] }

/-- A oneshot is registered; the sender of one that was there is dropped. -/
def register (seq : Int32) (n : Nat) : Link R Req Rep :=
  { l with
    pending := l.pending.insert seq n
    oneshots := (l.pending.lookup seq).elim l.oneshots fun m =>
      Function.update l.oneshots m (l.oneshots m).dropSender }

def send (f : Frame) (call : Option Nat) : Link R Req Rep :=
  { l with toServer := l.toServer ++ [(f, call)] }

def deliver (f : Frame) (answer : Option Nat) : Link R Req Rep :=
  { l with toClient := l.toClient ++ [(f, answer)] }

/-- A oneshot is completed. -/
def complete (n : Nat) (body : Bytes) (answer : Option Nat) : Link R Req Rep :=
  { l with oneshots := Function.update l.oneshots n (.sent body answer) }

def finish (n : Nat) (request : Req) (result : Except CallError Rep) (answer : Option Nat) :
    Link R Req Rep :=
  { l with returned := l.returned ++ [⟨n, request, result, answer⟩] }

def setPump (pump : Pump) : Link R Req Rep := { l with pump }

def drain : Link R Req Rep := { l with pending := ∅ }

/-- An idle task starts an operation. -/
def start : Operation Req → Link R Req Rep × CallTask Req
  | .call request =>
    (l.claim (some request),
      .registering l.claimed.length (claimNextOutboundSeq l.counter).1 request)
  | .disconnect => (l.claim none, .terminating (claimNextOutboundSeq l.counter).1)

/-- A waiting call looks at its oneshot. -/
def await (n : Nat) (request : Req) : Link R Req Rep × CallTask Req :=
  match l.oneshots n with
  | .waiting => (l, .awaiting n request)
  | .dropped => (l.finish n request (.error .closed) none, .idle)
  | .sent body answer => (l.finish n request (svc.result body) answer, .idle)

/-- The next section of a task. -/
def sect (x : CallInput Req) : CallTask Req → Link R Req Rep × CallTask Req
  | .idle => x.operation.elim (l, .idle) l.start
  | .registering n seq request => (l.register seq n, .sending n seq request)
  | .sending n seq request =>
    -- the oneshot stays registered when the frame cannot be sent
    if x.sendFails then (l.finish n request (.error .closed) none, .idle)
    else (l.send (svc.requestFrame l.sessionId seq request) (some n), .awaiting n request)
  | .awaiting n request => l.await svc n request
  | .terminating seq =>
    (if x.sendFails then l
      else l.send (.ofPayload [] seq l.sessionId noSequenceNumber .ctrlTerminateSession) none,
      .draining)
  | .draining => (l.drain, .waking l.pending.values)
  | .waking [] => (l, .aborting)
  | .waking (n :: waiters) => (l.complete n [] none, .waking waiters)
  | .aborting => ({ l with aborted := true }, .idle)

/-- The session loop takes a frame. -/
def handleRequest (env : E) (f : Frame) (call : Option Nat) (rest : List (Frame × Option Nat)) :
    Link R Req Rep :=
  let taken := { l with toServer := rest }
  let seq := f.header.sequenceNumber
  match f.header.messageType with
  | .hlaCallRequest =>
    let request := svc.requests.decode f.payload
    (svc.answer l.rti env request).elim l fun a =>
      { taken.deliver (svc.responseFrame l.sessionId seq a.2) (some l.answers.length) with
        rti := a.1
        answers := l.answers ++ [⟨call, request, a.2⟩] }
  | .ctrlTerminateSession =>
    { taken.deliver (.ofPayload [] noSequenceNumber l.sessionId seq .ctrlSessionTerminated) none with
      serving := false }
  | .ctrlHeartbeat =>
    taken.deliver (.ofPayload [] noSequenceNumber l.sessionId seq .ctrlHeartbeatResponse) none
  | _ => taken

/-- The pump handles a frame. -/
def handleFrame (f : Frame) (answer : Option Nat) : Link R Req Rep :=
  match f.header.messageType with
  | .hlaCallResponse =>
    match HlaCallResponsePayload.decode f.payload with
    | .error _ => l.setPump .receiving
    | .ok p =>
      (l.pending.lookup p.responseToSequenceNumber).elim (l.setPump .receiving) fun n =>
        { l with
          pending := l.pending.erase p.responseToSequenceNumber
          pump := .completing n p.body answer }
  | .ctrlHeartbeat =>
    (l.send (.ofPayload [] noSequenceNumber l.sessionId f.header.sequenceNumber
      .ctrlHeartbeatResponse) none).setPump .receiving
  | _ => l.setPump .receiving

/-- The next section of the pump. -/
def pumpStep (fails : Bool) : Link R Req Rep :=
  match l.pump with
  | .receiving =>
    if l.aborted then l.setPump .stopped
    else if fails then l.drain.setPump (.failing l.pending.values)
    else
      match l.toClient with
      | [] => l
      | (f, answer) :: rest => { l with toClient := rest, pump := .handling f answer }
  | .handling f answer => l.handleFrame f answer
  | .completing n body answer => (l.complete n body answer).setPump .receiving
  | .failing [] => l.setPump .stopped
  | .failing (n :: waiters) => (l.complete n [] none).setPump (.failing waiters)
  | .stopped => l

def act : LinkAct R E → Link R Req Rep
  | .serve env =>
    if l.serving then
      match l.toServer with
      | [] => l
      | (f, call) :: rest => l.handleRequest svc env f call rest
    else l
  | .pump fails => l.pumpStep fails
  | .callback seq payload =>
    l.deliver (.ofPayload payload seq l.sessionId noSequenceNumber .hlaCallbackRequest) none
  | .heartbeat seq =>
    l.deliver (.ofPayload [] seq l.sessionId noSequenceNumber .ctrlHeartbeat) none
  | .elsewhere rti => { l with rti }
  | .endSession => { l with serving := false }
  | .loseRequests => { l with toServer := [] }
  | .loseResponses => { l with toClient := [] }

end Link

def calling : Sections (Link R Req Rep) (CallTask Req) (CallInput Req) (LinkAct R E) where
  sect l p x := l.sect svc x p
  act l a := l.act svc a

/-- A session has just been opened. -/
def Link.new (sessionId : UInt64) (rti : R) : Link R Req Rep where
  sessionId
  counter := 1
  pending := ∅
  oneshots := fun _ => .waiting
  pump := .receiving
  aborted := false
  toServer := []
  toClient := []
  serving := true
  rti
  claimed := []
  answers := []
  returned := []

/-! ## Sequence numbers -/

/-- The number of the `n`-th claim: they count from 1, and after 2 ^ 31 - 1 from
0. -/
def seqOf (n : Nat) : Int32 := .ofNat ((n + 1) % 2 ^ 31)

theorem toInt_seqOf (n : Nat) : (seqOf n).toInt = ((n + 1) % 2 ^ 31 : Nat) := toInt_seqAt (n + 1)

theorem claimNextOutboundSeq_seqOf (n : Nat) :
    claimNextOutboundSeq (seqOf n) = (seqOf n, seqOf (n + 1)) :=
  claimNextOutboundSeq_seqAt (n + 1)

/-- Claims that share a number are 2 ^ 31 apart. -/
theorem seqOf_inj {m n : Nat} (hm : m < n + 2 ^ 31) (hn : n < m + 2 ^ 31)
    (h : seqOf m = seqOf n) : m = n := by
  have := congrArg Int32.toInt h
  rw [toInt_seqOf, toInt_seqOf] at this
  omega

theorem seqOf_add_cycle (n : Nat) : seqOf (n + 2 ^ 31) = seqOf n := by
  rw [seqOf, seqOf, Nat.add_right_comm, Nat.add_mod_right]

/-! ## A call by itself -/

section Undisturbed

variable {svc} {I : Type} [DecidableEq I]

theorem result_encode (response : Rep) :
    svc.result (svc.responses.encode response) = .ok response := by
  rw [Service.result, if_neg (svc.responses.encode_ne_nil response), svc.responses.decode_encode]

variable {l : Link R Req Rep} {sessionId : UInt64} {seq : Int32} {n : Nat} {request : Req}
  {response : Rep} {env : E} {rti : R} {call answer : Option Nat}

theorem handleFrame_response {f : Frame} {p : HlaCallResponsePayload}
    (htype : f.header.messageType = .hlaCallResponse)
    (hread : HlaCallResponsePayload.decode f.payload = .ok p) :
    l.handleFrame f answer =
      (l.pending.lookup p.responseToSequenceNumber).elim (l.setPump .receiving) fun n =>
        { l with
          pending := l.pending.erase p.responseToSequenceNumber
          pump := .completing n p.body answer } := by
  simp only [Link.handleFrame, htype, hread]

theorem pump_handling (hpump : l.pump = .handling (svc.responseFrame sessionId seq response) answer)
    (hpending : l.pending.lookup seq = some n) :
    (l.pumpStep false).pumpStep false =
      { l with
        pending := l.pending.erase seq
        oneshots := Function.update l.oneshots n (.sent (svc.responses.encode response) answer)
        pump := .receiving } := by
  have hread : HlaCallResponsePayload.decode
      (svc.responseFrame sessionId seq response).payload =
        .ok ⟨seq, svc.responses.encode response⟩ := HlaCallResponsePayload.decode_encode _
  have hhandle : l.pumpStep false =
      { l with
        pending := l.pending.erase seq
        pump := .completing n (svc.responses.encode response) answer } := by
    rw [Link.pumpStep, hpump]
    refine (handleFrame_response rfl hread).trans ?_
    rw [hpending]
    rfl
  rw [hhandle]
  rfl

/-- An idle task makes a call: the link when it has come to wait. -/
def Link.called (svc : Service R E Req Rep) (l : Link R Req Rep) (request : Req) :
    Link R Req Rep :=
  let seq := (claimNextOutboundSeq l.counter).1
  ((l.claim (some request)).register seq l.claimed.length).send
    (svc.requestFrame l.sessionId seq request) (some l.claimed.length)

variable {s : Link R Req Rep × (I → CallTask Req)} {i : I}

theorem run_call (hidle : s.2 i = .idle) :
    run (calling svc).step s (List.replicate 3 (.go i ⟨some (.call request), false⟩)) =
      (s.1.called svc request, Function.update s.2 i (.awaiting s.1.claimed.length request)) := by
  let x : CallInput Req := ⟨some (.call request), false⟩
  refine (Sections.run_solo i (List.replicate 3 x) s).trans ?_
  rw [hidle]
  rfl

theorem step_given {x : CallInput Req} (hwaits : s.2 i = .awaiting n request)
    (hgiven : s.1.oneshots n = .sent (svc.responses.encode response) answer) :
    (calling svc).step s (.go i x) =
      (s.1.finish n request (.ok response) answer, Function.update s.2 i .idle) := by
  have hsect : (calling svc).sect s.1 (s.2 i) x =
      (s.1.finish n request (.ok response) answer, .idle) := by
    rw [hwaits]
    show s.1.await svc n request = _
    rw [Link.await, hgiven, ← result_encode]
  rw [Sections.step, hsect]

end Undisturbed

end Hla4
