/-
# `Hla4.Rti.Node` — the server: federations, sessions, and their life

The state of `RtiNode`, `handle_connection_via_transport`, the janitor, and the
services of `federation_mgmt.rs`.

**Federations.**  Sessions hold a federation by reference, and go on holding it
after it is destroyed.  A federation therefore lives in a heap under a `FedRef`
that is never reused; the registry maps names to references.

**Sessions.**  A transport is accepted, opens a new session or resumes a
suspended one, and then runs: its calls are dispatched one at a time, each
atomically.  When it ends, its membership is suspended or its federate leaves.
Removing its connection is a later step of its own (`removeConnection`), as the
janitor's removals are separate from its scan.

    accept            the transport's first frame, and whether the answer to
                      it could be sent
    call              one dispatched call
    close             the session loop ends, for whatever reason
    removeConnection  the rest of the teardown
    janitorScan       collect the ids of the expired sessions
    janitorRemove     remove the next of them
    elapse            time passes

What a step does to a federation is said once: `Node.action` is the federation
it acts on and the action, and `Node.heap_step` says that nothing else happens
to any federation.  An invariant of federations is thereby proved over four
actions (`Node.heap_always`).
-/
import Hla4.Lib.Run
import Hla4.Rti.Dispatch

namespace Hla4

open Lib

/-! ## State -/

/-- `Arc<Federation>`. -/
abbrev FedRef := Nat

/-- An accepted transport. -/
abbrev Transport := Nat

structure Membership where
  federation : FedRef
  federateHandle : FederateHandle
  federateName : String

/-- A running session: its `SessionContext`, and the reconnect window in force
when it was opened. -/
structure Session where
  sessionId : UInt64
  membership : Option Membership
  reconnectWindow : Nat

structure SuspendedSession where
  membership : Membership
  deadline : Nat

structure Node where
  federations : HashMap String FedRef
  heap : FedRef → Federation
  nextRef : FedRef
  nextSessionId : UInt64
  defaultFom : Omt.MergedFom
  connections : HashMap UInt64 ConnectionHandle
  sessions : HashMap Transport Session
  nextTransport : Transport
  suspendedSessions : HashMap UInt64 SuspendedSession
  /-- sessions that ended and whose connection is still to be removed -/
  closing : List UInt64
  /-- ids the janitor has collected -/
  expired : List UInt64
  clock : Nat
  reconnectWindow : Nat
  saveDir : String
  /-- snapshots by directory and file name -/
  disk : String × String → Option FederationSnapshot

/-- `RtiNode::new`. -/
def Node.new : Node where
  federations := ∅
  heap := fun _ => .new "" .new
  nextRef := 0
  nextSessionId := 1
  defaultFom := .new
  connections := ∅
  sessions := ∅
  nextTransport := 0
  suspendedSessions := ∅
  closing := []
  expired := []
  clock := 0
  reconnectWindow := 0
  saveDir := "./hla4-saves"
  disk := fun _ => none

/-! ## Joining and leaving a federation -/

def hexDigit (n : Nat) : Char := if n < 10 then Char.ofNat (48 + n) else Char.ofNat (55 + n)

/-- `{:08X}`. -/
def hex8 (n : UInt32) : String :=
  String.ofList ([7, 6, 5, 4, 3, 2, 1, 0].map fun i => hexDigit (n.toNat / 16 ^ i % 16))

/-- A federate that has just joined. -/
def FederateSession.new (handle : FederateHandle) (name : String) (sessionId : UInt64) :
    FederateSession where
  handle
  name
  federateType := ""
  sessionId
  pubSub := .empty
  time := .initial
  switches := {}
  tsoQueue := .empty

namespace Federation

variable (fed : Federation)

/-- The handle the next join draws. -/
def nextHandle : FederateHandle := ⟨fed.nextFederateId⟩

def drawHandle : Federation := { fed with nextFederateId := fed.nextFederateId + 1 }

/-- Draw a handle and enter a federate under it. -/
def enter (name : String) (sessionId : UInt64) : Federation :=
  { fed.drawHandle with
    federates := fed.federates.insert fed.nextHandle (.new fed.nextHandle name sessionId) }

/-- The handle is drawn before the name, if one is asked for, is checked. -/
def join (requested : Option String) (sessionId : UInt64) :
    Federation × Except ExceptionData (FederateHandle × String) :=
  let name := requested.getD ("federate-" ++ hex8 fed.nextFederateId)
  if requested.isSome ∧ ∃ fs ∈ fed.federates.values, fs.name = name then
    (fed.drawHandle, .error (HlaException.federateNameAlreadyInUse.because name))
  else (fed.enter name sessionId, .ok (fed.nextHandle, name))

/-- All that happens to a federation when a federate leaves it. -/
def leave (h : FederateHandle) : Federation := { fed with federates := fed.federates.erase h }

variable {fed}

theorem join_cases (fed : Federation) (requested : Option String) (sessionId : UInt64) :
    (∃ e, fed.join requested sessionId = (fed.drawHandle, .error e)) ∨
    ∃ name, fed.join requested sessionId = (fed.enter name sessionId, .ok (fed.nextHandle, name)) := by
  rw [join]
  split
  · exact .inl ⟨_, rfl⟩
  · exact .inr ⟨_, rfl⟩

/-- **What a join keeps**: what drawing a handle and entering a federate do. -/
theorem join_keeps {P : Federation → Prop} {requested : Option String} {sessionId : UInt64}
    (hdraw : P fed.drawHandle) (henter : ∀ name, P (fed.enter name sessionId)) :
    P (fed.join requested sessionId).1 := by
  rcases fed.join_cases requested sessionId with ⟨e, he⟩ | ⟨name, he⟩
  · rw [he]
    exact hdraw
  · rw [he]
    exact henter name

/-- A join changes the federates and a counter only. -/
theorem join_view (fed : Federation) (requested : Option String) (sessionId : UInt64) {p : Part}
    (hf : ∀ q, p ≠ .federate q) (hc : p ≠ .counters) :
    (fed.join requested sessionId).1.view p = fed.view p := by
  cases p with
  | federate q => exact absurd rfl (hf q)
  | counters => exact absurd rfl hc
  | _ => exact join_keeps (P := fun fed' => fed'.view _ = fed.view _) rfl fun _ => rfl

theorem lookup_enter (name : String) (sessionId : UInt64) (k : FederateHandle) :
    (fed.enter name sessionId).federates.lookup k =
      if k = fed.nextHandle then some (.new fed.nextHandle name sessionId)
      else fed.federates.lookup k :=
  HashMap.lookup_insert_eq ..

theorem lookup_leave (h k : FederateHandle) :
    (fed.leave h).federates.lookup k = if k = h then none else fed.federates.lookup k :=
  HashMap.lookup_erase_eq ..

theorem net_enter (name : String) (sessionId : UInt64) (k : FederateHandle) :
    (fed.enter name sessionId).net k = if k = fed.nextHandle then some TimeState.initial else fed.net k := by
  rw [net, lookup_enter]
  split <;> rfl

theorem net_leave (h k : FederateHandle) :
    (fed.leave h).net k = if k = h then none else fed.net k := by
  rw [net, lookup_leave]
  split <;> rfl

end Federation

/-! ## Calls -/

/-- What reading a FOM file gives. -/
inductive FomParse
  | notUtf8 (reason : String)
  | unparsable (reason : String)
  | parsed (m : Omt.FomModule)

/-- What the environment decides in one call. -/
structure CallEnv extends Env where
  names : IterOrder String
  parse : Bytes → FomParse

def decodeFomModule (parse : Bytes → FomParse) : WireFomModule → Except ExceptionData Omt.FomModule
  | .file name content =>
    match parse content with
    | .notUtf8 reason => .error ⟨.couldNotOpenFdd, .fomNotUtf8 name reason⟩
    | .unparsable reason => .error ⟨.couldNotOpenFdd, .fomUnparsable name reason⟩
    | .parsed m => .ok m
  | .compressedModule =>
    .error (HlaException.couldNotOpenFdd.because "compressed FOM modules not yet supported")
  | .url => .error (HlaException.couldNotOpenFdd.because "URL FOM modules not yet supported")
  | .unset => .error (HlaException.couldNotOpenFdd.because "FomModule has no oneof variant set")

/-- A name as part of a file name. -/
def fileSafe (name : String) : String :=
  name.map fun ch => if ch = '/' ∨ ch = '\\' then '_' else ch

/-- The file of `snapshot_path`, without the directory. -/
def snapshotFile (federation label : String) : String :=
  fileSafe federation ++ "__" ++ fileSafe label ++ ".json"

/-- What a dispatched call produces. -/
structure CallOutcome where
  node : Node
  response : Resp
  callbacks : List OutboundCallback
  /-- history: the grants made, in order -/
  grants : List (Net.GrantStep FederateHandle ℚ)

/-- No grant, and no callback with a timestamp. -/
def CallOutcome.Quiet (o : CallOutcome) : Prop :=
  o.grants = [] ∧ ∀ cb ∈ o.callbacks, cb.body.Untimed

namespace Node

variable (n : Node)

def setFederation (r : FedRef) (fed : Federation) : Node :=
  { n with heap := Function.update n.heap r fed }

def setMembership (t : Transport) (m : Option Membership) : Node :=
  { n with sessions := n.sessions.modify t fun s => { s with membership := m } }

/-- The federate of a membership leaves its federation. -/
def removeFederate (m : Membership) : Node :=
  n.setFederation m.federation ((n.heap m.federation).leave m.federateHandle)

/-- A response and callbacks. -/
def respond (response : Resp) (callbacks : List OutboundCallback) : CallOutcome :=
  ⟨n, response, callbacks, []⟩

/-- A response, or the exception, with the node as given. -/
def respondWith : Except ExceptionData Resp → CallOutcome
  | .ok response => n.respond response []
  | .error e => n.respond (.exceptionData e) []

/-- Push a report at the session's own connection. -/
def report (s : Session) (body : CallbackRequest) : List OutboundCallback :=
  (n.connections.lookup s.sessionId).toList.map fun target => ⟨target, body, none⟩

/-- The checks of `create_federation_inner`: the object model of the federation
to create. -/
def fomForNew (env : CallEnv) (name : String) (modules : List WireFomModule) :
    Except ExceptionData Omt.MergedFom := do
  require (name ≠ "") (HlaException.errorReadingFdd.because "federationName must not be empty")
  require (name ∉ n.federations) (HlaException.federationExecutionAlreadyExists.because name)
  let modules ← modules.mapM (decodeFomModule env.parse)
  if modules.isEmpty then pure n.defaultFom
  else match Omt.mergeModules modules with
    | .ok fom => pure fom
    | .error e => .error ⟨.errorReadingFdd, .fom e⟩

def createFederation (env : CallEnv) (name : String) (modules : List WireFomModule) :
    Except ExceptionData Node := do
  let fom ← n.fomForNew env name modules
  pure { n.setFederation n.nextRef (.new name fom) with
    federations := n.federations.insert name n.nextRef
    nextRef := n.nextRef + 1 }

def destroyFederation (name : String) : Except ExceptionData Node := do
  let r ← getOr (n.federations.lookup name)
    (HlaException.federationExecutionDoesNotExist.because name)
  require ((n.heap r).federates.keys = []) (HlaException.federatesCurrentlyJoined.because name)
  pure { n with federations := n.federations.erase name }

def listMembers (env : CallEnv) (name : String) : CallbackRequest :=
  match n.federations.lookup name with
  | some r => .reportFederationExecutionMembers name
      (((n.heap r).sessions env.federates).map fun e => (e.2.name, e.2.federateType))
  | none => .reportFederationExecutionDoesNotExist name

/-- The name a join asks for. -/
def requestedName (form : JoinForm) (federateName : String) : Option String :=
  match form with
  | .plain => none
  | .withModules => none
  | .withName => some federateName
  | .withNameAndModules => some federateName

def join (t : Transport) (s : Session) (form : JoinForm) (federateName federationName : String) :
    CallOutcome :=
  if s.membership.isSome then
    n.respond (.exceptionData (HlaException.federateAlreadyExecutionMember.because
      ("session " ++ toString s.sessionId))) []
  else
    match n.federations.lookup federationName with
    | none => n.respond (.exceptionData
        (HlaException.federationExecutionDoesNotExist.because federationName)) []
    | some r =>
      let joined := (n.heap r).join (requestedName form federateName) s.sessionId
      let n' := n.setFederation r joined.1
      match joined.2 with
      | .error e => n'.respond (.exceptionData e) []
      | .ok (handle, name) =>
        (n'.setMembership t (some ⟨r, handle, name⟩)).respond
          (.joinFederationExecution form handle "HLAfloat64Time") []

def resign (t : Transport) (s : Session) : CallOutcome :=
  match s.membership with
  | none => n.respond (.exceptionData HlaException.federateNotExecutionMember.bare) []
  | some m => ((n.removeFederate m).setMembership t none).respond
      (.ack .resignFederationExecution) []

def serveFederation (t : Transport) (s : Session) (env : CallEnv) : FederationRequest → CallOutcome
  | .createFederationExecution form name modules =>
    match n.createFederation env name modules with
    | .ok n' => n'.respond (.ack (.createFederationExecution form)) []
    | .error e => n.respond (.exceptionData e) []
  | .destroyFederationExecution name =>
    match n.destroyFederation name with
    | .ok n' => n'.respond (.ack .destroyFederationExecution) []
    | .error e => n.respond (.exceptionData e) []
  | .listFederationExecutionMembers name =>
    n.respond (.ack .listFederationExecutionMembers) (n.report s (n.listMembers env name))
  | .listFederationExecutions =>
    n.respond (.ack .listFederationExecutions)
      (n.report s (.reportFederationExecutions (env.names.order n.federations.keys)))
  | .joinFederationExecution form federateName federationName =>
    n.join t s form federateName federationName
  | .resignFederationExecution => n.resign t s

/-- What a handler sees of the node. -/
def caller (m : Membership) (env : CallEnv) : Caller where
  federate := m.federateHandle
  connections := n.connections
  env := env.toEnv
  saved := fun federation label => n.disk (n.saveDir, snapshotFile federation label)

/-- Write a snapshot, if there is one and the file system lets it. -/
def writeSnapshot (federation : String) (env : CallEnv) :
    Option (String × FederationSnapshot) → Node
  | some (label, snap) =>
    if env.writeFails then n
    else { n with
      disk := Function.update n.disk (n.saveDir, snapshotFile federation label) (some snap) }
  | none => n

/-- A service call of a joined session. -/
def serveMember (m : Membership) (env : CallEnv) (r : ServiceRequest) : CallOutcome :=
  let o := serve (n.caller m env) (n.heap m.federation) r
  let n' := (n.setFederation m.federation o.federation).writeSnapshot
    (n.heap m.federation).name env o.snapshot
  ⟨n', o.response, o.callbacks, o.grants⟩

/-- `dispatch_call`, for the session running on transport `t`. -/
def dispatchCall (t : Transport) (s : Session) (env : CallEnv) : CallRequest → CallOutcome
  | .malformed error => n.respond (.exceptionData
      (HlaException.rtiInternalError.because ("malformed CallRequest: " ++ error))) []
  | .unset => n.respond (.exceptionData
      (HlaException.rtiInternalError.because "CallRequest envelope had no oneof variant set")) []
  | .stateless r => n.respondWith (statelessResponse r)
  | .federation r => n.serveFederation t s env r
  | .service r =>
    match s.membership with
    | none => n.respond (.exceptionData r.notJoined) []
    | some m => n.serveMember m env r

/-! ## The life of a session -/

/-- The session loop starts. -/
def openSession (sessionId : UInt64) (m : Option Membership) : Node :=
  { n with
    sessions := n.sessions.insert n.nextTransport ⟨sessionId, m, n.reconnectWindow⟩
    connections := n.connections.insert sessionId ⟨sessionId, n.nextTransport⟩
    nextTransport := n.nextTransport + 1 }

end Node

/-- The first frame of a transport. -/
inductive FirstFrame
  | newSession (protocolVersion : Int32)
  | resume (sessionId : UInt64)
  /-- none, an unreadable one, or one of another type -/
  | other

def federateProtocolVersion : Int32 := 1

namespace Node

variable (n : Node)

/-- A transport is accepted and its first frame answered; `sent` says whether
the answer could be sent.  A session id is drawn in any case. -/
def accept (first : FirstFrame) (sent : Bool) : Node :=
  let drawn := { n with nextSessionId := n.nextSessionId + 1 }
  match first with
  | .newSession version =>
    if version = federateProtocolVersion ∧ sent = true then
      drawn.openSession n.nextSessionId none
    else drawn
  | .resume sessionId =>
    match n.suspendedSessions.lookup sessionId with
    | none => drawn
    | some s =>
      let taken := { drawn with suspendedSessions := n.suspendedSessions.erase sessionId }
      if n.clock < s.deadline ∧ sent = true then taken.openSession sessionId (some s.membership)
      else taken
  | .other => drawn

/-- The session loop ends: the membership is suspended, or the federate
leaves. -/
def close (t : Transport) : Node :=
  match n.sessions.lookup t with
  | none => n
  | some s =>
    let ended := { n with
      sessions := n.sessions.erase t
      closing := s.sessionId :: n.closing }
    match s.membership with
    | none => ended
    | some m =>
      if 0 < s.reconnectWindow then
        { ended with suspendedSessions :=
            n.suspendedSessions.insert s.sessionId ⟨m, n.clock + s.reconnectWindow⟩ }
      else ended.removeFederate m

/-- The rest of the teardown. -/
def removeConnection (sessionId : UInt64) : Node :=
  if sessionId ∈ n.closing then
    { n with
      connections := n.connections.erase sessionId
      closing := n.closing.erase sessionId }
  else n

/-- The janitor collects the ids of the expired entries. -/
def janitorScan : Node :=
  { n with expired := n.expired ++ n.suspendedSessions.keys.filter fun sid =>
      match n.suspendedSessions.lookup sid with
      | some s => decide (s.deadline ≤ n.clock)
      | none => false }

/-- The janitor removes the entry of the next id it collected, if it is still
there. -/
def janitorRemove : Node :=
  match n.expired with
  | [] => n
  | sid :: rest =>
    let next := { n with expired := rest }
    match n.suspendedSessions.lookup sid with
    | none => next
    | some s =>
      { next with suspendedSessions := n.suspendedSessions.erase sid }.removeFederate s.membership

end Node

inductive NodeEvent
  | accept (first : FirstFrame) (sent : Bool)
  | call (t : Transport) (env : CallEnv) (request : CallRequest)
  | close (t : Transport)
  | removeConnection (sessionId : UInt64)
  | janitorScan
  | janitorRemove
  | elapse (d : Nat)
  | setReconnectWindow (window : Nat)
  | setDefaultFom (fom : Omt.MergedFom)
  | setSaveDir (dir : String)

namespace Node

/-- The outcome of a call event: `none` when no session runs on the transport. -/
def outcome (n : Node) (t : Transport) (env : CallEnv) (request : CallRequest) :
    Option CallOutcome :=
  (n.sessions.lookup t).map fun s => n.dispatchCall t s env request

def step (n : Node) : NodeEvent → Node
  | .accept first sent => n.accept first sent
  | .call t env request =>
    match n.outcome t env request with
    | some o => o.node
    | none => n
  | .close t => n.close t
  | .removeConnection sessionId => n.removeConnection sessionId
  | .janitorScan => n.janitorScan
  | .janitorRemove => n.janitorRemove
  | .elapse d => { n with clock := n.clock + d }
  | .setReconnectWindow window => { n with reconnectWindow := window }
  | .setDefaultFom fom => { n with defaultFom := fom }
  | .setSaveDir dir => { n with saveDir := dir }

end Node

/-! ## What a step does to a federation -/

/-- All that can happen to a federation. -/
inductive FedAction
  | create (name : String) (fom : Omt.MergedFom)
  | join (requested : Option String) (sessionId : UInt64)
  | leave (h : FederateHandle)
  | serve (c : Caller) (r : ServiceRequest)

def FedAction.apply (fed : Federation) : FedAction → Federation
  | create name fom => .new name fom
  | join requested sessionId => (fed.join requested sessionId).1
  | leave h => fed.leave h
  | serve c r => (Hla4.serve c fed r).federation

namespace Node

/-- The action of a call, and the federation it acts on. -/
def callAction (n : Node) (s : Session) (env : CallEnv) : CallRequest → Option (FedRef × FedAction)
  | .service r => s.membership.map fun m => (m.federation, .serve (n.caller m env) r)
  | .federation (.createFederationExecution _ name modules) =>
    match n.fomForNew env name modules with
    | .ok fom => some (n.nextRef, .create name fom)
    | .error _ => none
  | .federation (.joinFederationExecution form federateName federationName) =>
    if s.membership.isSome then none
    else (n.federations.lookup federationName).map fun r =>
      (r, .join (requestedName form federateName) s.sessionId)
  | .federation .resignFederationExecution =>
    s.membership.map fun m => (m.federation, .leave m.federateHandle)
  | _ => none

/-- The action of a step, and the federation it acts on. -/
def action (n : Node) : NodeEvent → Option (FedRef × FedAction)
  | .call t env request => (n.sessions.lookup t).bind fun s => n.callAction s env request
  | .close t => (n.sessions.lookup t).bind fun s =>
    if 0 < s.reconnectWindow then none
    else s.membership.map fun m => (m.federation, .leave m.federateHandle)
  | .janitorRemove => n.expired.head?.bind fun sid =>
    (n.suspendedSessions.lookup sid).map fun s =>
      (s.membership.federation, .leave s.membership.federateHandle)
  | _ => none

/-- The federations after an action. -/
def heapAfter (n : Node) : Option (FedRef × FedAction) → FedRef → Federation
  | none => n.heap
  | some (r, a) => Function.update n.heap r (a.apply (n.heap r))

/-- The federation, the label and the snapshot that a step writes. -/
def writes (n : Node) : NodeEvent → Option (String × String × FederationSnapshot)
  | .call t env (.service r) =>
    (n.sessions.lookup t).bind fun s => s.membership.bind fun m =>
      if env.writeFails then none
      else (serve (n.caller m env) (n.heap m.federation) r).snapshot.map
        ((n.heap m.federation).name, ·)
  | _ => none

/-- The snapshots on disk after a write. -/
def diskAfter (n : Node) :
    Option (String × String × FederationSnapshot) → String × String → Option FederationSnapshot
  | none => n.disk
  | some (federation, label, snap) =>
    Function.update n.disk (n.saveDir, snapshotFile federation label) (some snap)

theorem heap_writeSnapshot (n : Node) (federation : String) (env : CallEnv)
    (snap : Option (String × FederationSnapshot)) :
    (n.writeSnapshot federation env snap).heap = n.heap := by
  cases snap with
  | none => rfl
  | some =>
    rw [writeSnapshot]
    split <;> rfl

theorem destroyFederation_ok {n n' : Node} {name : String} (h : n.destroyFederation name = .ok n') :
    n' = { n with federations := n.federations.erase name } := by
  obtain ⟨_, _, h⟩ := bind_eq_ok.mp h
  obtain ⟨_, _, h⟩ := bind_eq_ok.mp h
  exact (Except.ok.inj h).symm

theorem heap_disk_serveFederation (n : Node) (t : Transport) (s : Session) (env : CallEnv)
    (r : FederationRequest) :
    (n.serveFederation t s env r).node.heap = n.heapAfter (n.callAction s env (.federation r)) ∧
      (n.serveFederation t s env r).node.disk = n.disk := by
  cases r with
  | createFederationExecution form name modules =>
    rw [serveFederation, createFederation, callAction]
    cases n.fomForNew env name modules with
    | error | ok => exact ⟨rfl, rfl⟩
  | destroyFederationExecution name =>
    rw [serveFederation]
    cases hd : n.destroyFederation name with
    | error => exact ⟨rfl, rfl⟩
    | ok => rw [destroyFederation_ok hd]; exact ⟨rfl, rfl⟩
  | listFederationExecutionMembers | listFederationExecutions => exact ⟨rfl, rfl⟩
  | joinFederationExecution form federateName federationName =>
    rw [serveFederation, join, callAction]
    split
    · exact ⟨rfl, rfl⟩
    · cases n.federations.lookup federationName with
      | none => exact ⟨rfl, rfl⟩
      | some =>
        dsimp only [Option.map_some]
        split <;> exact ⟨rfl, rfl⟩
  | resignFederationExecution =>
    rw [serveFederation, resign, callAction]
    cases s.membership with
    | none | some => exact ⟨rfl, rfl⟩

theorem heap_dispatchCall (n : Node) (t : Transport) (s : Session) (env : CallEnv)
    (request : CallRequest) :
    (n.dispatchCall t s env request).node.heap = n.heapAfter (n.callAction s env request) := by
  cases request with
  | malformed => rfl
  | unset => rfl
  | stateless r =>
    rw [dispatchCall]
    cases statelessResponse r with
    | error => rfl
    | ok => rfl
  | federation r => exact (n.heap_disk_serveFederation t s env r).1
  | service =>
    rw [dispatchCall, callAction]
    cases s.membership with
    | none => rfl
    | some => exact heap_writeSnapshot ..

theorem disk_serveMember (n : Node) (m : Membership) (env : CallEnv) (r : ServiceRequest) :
    (n.serveMember m env r).node.disk = n.diskAfter
      (if env.writeFails then none
        else (serve (n.caller m env) (n.heap m.federation) r).snapshot.map
          ((n.heap m.federation).name, ·)) := by
  rw [serveMember]
  cases (serve (n.caller m env) (n.heap m.federation) r).snapshot with
  | none => split <;> rfl
  | some =>
    rw [writeSnapshot]
    split <;> rfl

theorem disk_dispatchCall (n : Node) (t : Transport) (s : Session) (env : CallEnv)
    (request : CallRequest) (hs : n.sessions.lookup t = some s) :
    (n.dispatchCall t s env request).node.disk = n.diskAfter (n.writes (.call t env request)) := by
  cases request with
  | malformed => rfl
  | unset => rfl
  | stateless r =>
    rw [dispatchCall]
    cases statelessResponse r with
    | error => rfl
    | ok => rfl
  | federation r => exact (n.heap_disk_serveFederation t s env r).2
  | service r =>
    rw [dispatchCall, writes, hs, Option.bind_some]
    cases s.membership with
    | none => rfl
    | some m => exact n.disk_serveMember m env r

/-- **What a step does to the federations and the snapshots on disk**: the action,
to the federation it acts on, and the write. -/
theorem heap_disk_step (n : Node) (e : NodeEvent) :
    (n.step e).heap = n.heapAfter (n.action e) ∧ (n.step e).disk = n.diskAfter (n.writes e) := by
  cases e with
  | accept first =>
    cases first with
    | newSession =>
      rw [step, accept]
      split <;> exact ⟨rfl, rfl⟩
    | resume sessionId =>
      rw [step, accept]
      cases n.suspendedSessions.lookup sessionId with
      | none => exact ⟨rfl, rfl⟩
      | some => dsimp only; split <;> exact ⟨rfl, rfl⟩
    | other => exact ⟨rfl, rfl⟩
  | call t env request =>
    rw [step, outcome, action]
    cases hs : n.sessions.lookup t with
    | none => cases request <;> simp [writes, hs, diskAfter, heapAfter]
    | some s =>
      exact ⟨n.heap_dispatchCall t s env request, n.disk_dispatchCall t s env request hs⟩
  | close t =>
    rw [step, close, action]
    cases n.sessions.lookup t with
    | none => exact ⟨rfl, rfl⟩
    | some s =>
      obtain ⟨sessionId, membership, window⟩ := s
      cases membership with
      | none => exact ⟨by simp [heapAfter], rfl⟩
      | some =>
        dsimp only [Option.bind_some]
        split <;> exact ⟨rfl, rfl⟩
  | removeConnection =>
    rw [step, removeConnection]
    split <;> exact ⟨rfl, rfl⟩
  | janitorRemove =>
    rw [step, janitorRemove, action]
    cases n.expired with
    | nil => exact ⟨rfl, rfl⟩
    | cons sid =>
      show _ = n.heapAfter ((n.suspendedSessions.lookup sid).map _) ∧ _
      cases hs : n.suspendedSessions.lookup sid with
      | none | some => simp only [hs]; exact ⟨rfl, rfl⟩
  | janitorScan | elapse | setReconnectWindow | setDefaultFom | setSaveDir => exact ⟨rfl, rfl⟩

theorem heap_step (n : Node) (e : NodeEvent) : (n.step e).heap = n.heapAfter (n.action e) :=
  (n.heap_disk_step e).1

theorem disk_step (n : Node) (e : NodeEvent) : (n.step e).disk = n.diskAfter (n.writes e) :=
  (n.heap_disk_step e).2

theorem heap_cases (n : Node) (e : NodeEvent) (r : FedRef) :
    (n.step e).heap r = n.heap r ∨
      ∃ a, n.action e = some (r, a) ∧ (n.step e).heap r = a.apply (n.heap r) := by
  rw [heap_step]
  cases n.action e with
  | none => exact .inl rfl
  | some ra =>
    by_cases hr : r = ra.1
    · subst hr
      exact .inr ⟨ra.2, rfl, Function.update_self ..⟩
    · exact .inl (Function.update_of_ne hr ..)

/-! ## Invariants of federations -/

/-- The action of the step, if there is one, meets `ok`. -/
def Meets (ok : Federation → FedAction → Prop) (n : Node) (e : NodeEvent) : Prop :=
  ∀ ra ∈ n.action e, ok (n.heap ra.1) ra.2

instance (ok : Federation → FedAction → Prop) [∀ fed a, Decidable (ok fed a)] (n : Node)
    (e : NodeEvent) : Decidable (n.Meets ok e) :=
  inferInstanceAs (Decidable (∀ ra ∈ n.action e, ok (n.heap ra.1) ra.2))

variable {P : Federation → Prop} {ok : Federation → FedAction → Prop}

/-- An invariant kept by the actions is kept by the steps. -/
theorem heap_keeps (keeps : ∀ fed a, P fed → ok fed a → P (a.apply fed)) (n : Node) (e : NodeEvent)
    (h : ∀ r, P (n.heap r)) (hok : n.Meets ok e) : ∀ r, P ((n.step e).heap r) := by
  intro r
  rcases n.heap_cases e r with hsame | ⟨a, ha, hact⟩
  · exact hsame ▸ h r
  · exact hact ▸ keeps _ a (h r) (hok (r, a) ha)

/-- **The invariant rule for federations.** -/
theorem heap_always (hnew : ∀ name fom, P (.new name fom))
    (keeps : ∀ fed a, P fed → ok fed a → P (a.apply fed)) {es : List NodeEvent}
    (h : StepsMeet Node.step (Meets ok) Node.new es) :
    Always Node.step (fun n => ∀ r, P (n.heap r)) Node.new es :=
  h.always (heap_keeps keeps) fun _ => hnew _ _

/-! ## Histories of a federation -/

/-- The action of the step, if it acts on federation `r`, meets `ok`. -/
def MeetsAt (r : FedRef) (ok : Federation → FedAction → Prop) (n : Node) (e : NodeEvent) : Prop :=
  ∀ ra ∈ n.action e, ra.1 = r → ok (n.heap r) ra.2

instance (r : FedRef) (ok : Federation → FedAction → Prop) [∀ fed a, Decidable (ok fed a)]
    (n : Node) (e : NodeEvent) : Decidable (n.MeetsAt r ok e) :=
  inferInstanceAs (Decidable (∀ ra ∈ n.action e, ra.1 = r → ok (n.heap r) ra.2))

/-- The history of one federation: `record` at each of its actions. -/
def track {G : Type} (r : FedRef) (record : Federation → FedAction → G → G) (n : Node)
    (e : NodeEvent) (g : G) : G :=
  match n.action e with
  | some (r', a) => if r' = r then record (n.heap r) a g else g
  | none => g

/-- The action of the step, if it acts on federation `r`, meets `ok` in view of
the history. -/
def MeetsWith {G : Type} (r : FedRef) (ok : Federation → G → FedAction → Prop) (s : Node × G)
    (e : NodeEvent) : Prop :=
  ∀ ra ∈ s.1.action e, ra.1 = r → ok (s.1.heap r) s.2 ra.2

instance {G : Type} (r : FedRef) (ok : Federation → G → FedAction → Prop)
    [∀ fed g a, Decidable (ok fed g a)] (s : Node × G) (e : NodeEvent) :
    Decidable (MeetsWith r ok s e) :=
  inferInstanceAs (Decidable (∀ ra ∈ s.1.action e, ra.1 = r → ok (s.1.heap r) s.2 ra.2))

section Track

variable {G : Type} {I : Federation → G → Prop} {g₀ : G} {r : FedRef}
  {record : Federation → FedAction → G → G} {es : List NodeEvent}

/-- An invariant of a federation and its history that the actions keep is kept
by the steps. -/
theorem track_keeps {ok : Federation → G → FedAction → Prop}
    (keeps : ∀ fed g a, I fed g → ok fed g a → I (a.apply fed) (record fed a g)) (s : Node × G)
    (e : NodeEvent) (hinv : I (s.1.heap r) s.2) (hok : MeetsWith r ok s e) :
    I ((logged Node.step (track r record) s e).1.heap r)
      (logged Node.step (track r record) s e).2 := by
  obtain ⟨n, g⟩ := s
  show I ((n.step e).heap r) (n.track r record e g)
  rw [heap_step, track]
  cases ha : n.action e with
  | none => exact hinv
  | some ra =>
    obtain ⟨r', a⟩ := ra
    by_cases hr : r' = r
    · subst hr
      rw [heapAfter, Function.update_self]
      simp only [if_true]
      exact keeps _ g a hinv (hok (r', a) ha rfl)
    · rw [heapAfter, Function.update_of_ne (Ne.symm hr)]
      simp only [hr, if_false]
      exact hinv

/-- **The invariant rule for a federation and its history**, under a condition
on both. -/
theorem track_always_with {ok : Federation → G → FedAction → Prop} (hnew : I (.new "" .new) g₀)
    (keeps : ∀ fed g a, I fed g → ok fed g a → I (a.apply fed) (record fed a g))
    (h : StepsMeet (logged Node.step (track r record)) (MeetsWith r ok) (Node.new, g₀) es) :
    Always (logged Node.step (track r record)) (fun s => I (s.1.heap r) s.2) (Node.new, g₀) es :=
  h.always (track_keeps keeps) hnew

/-- What holds of every action on an invariant federation holds at every
step. -/
theorem track_each_with {ok Q : Federation → G → FedAction → Prop} (hnew : I (.new "" .new) g₀)
    (keeps : ∀ fed g a, I fed g → ok fed g a → I (a.apply fed) (record fed a g))
    (hQ : ∀ fed g a, I fed g → ok fed g a → Q fed g a)
    (h : StepsMeet (logged Node.step (track r record)) (MeetsWith r ok) (Node.new, g₀) es) :
    StepsMeet (logged Node.step (track r record)) (MeetsWith r Q) (Node.new, g₀) es :=
  h.each (P := fun s => I (s.1.heap r) s.2) (track_keeps keeps)
    (fun s _ hinv hok ra ha hr => hQ _ s.2 ra.2 hinv (hok ra ha hr)) hnew

theorem track_always (hnew : I (.new "" .new) g₀)
    (keeps : ∀ fed g a, I fed g → ok fed a → I (a.apply fed) (record fed a g))
    (h : StepsMeet Node.step (MeetsAt r ok) Node.new es) :
    Always (logged Node.step (track r record)) (fun s => I (s.1.heap r) s.2) (Node.new, g₀) es := by
  have h' : StepsMeet (logged Node.step (track r record)) (MeetsWith r fun fed _ a => ok fed a)
    (Node.new, g₀) es := h.logged g₀
  exact track_always_with hnew keeps h'

theorem track_each {Q : Federation → G → FedAction → Prop} (hnew : I (.new "" .new) g₀)
    (keeps : ∀ fed g a, I fed g → ok fed a → I (a.apply fed) (record fed a g))
    (hQ : ∀ fed g a, I fed g → ok fed a → Q fed g a)
    (h : StepsMeet Node.step (MeetsAt r ok) Node.new es) :
    StepsMeet (logged Node.step (track r record)) (MeetsWith r Q) (Node.new, g₀) es := by
  have h' : StepsMeet (logged Node.step (track r record)) (MeetsWith r fun fed _ a => ok fed a)
    (Node.new, g₀) es := h.logged g₀
  exact track_each_with hnew keeps hQ h'

/-- **The exact rule**: a condition that is, on invariant federations, one without
the history is met by the same runs. -/
theorem track_iff {Q : Federation → G → FedAction → Prop} {R : Federation → FedAction → Prop}
    (hnew : I (.new "" .new) g₀)
    (keeps : ∀ fed g a, I fed g → ok fed a → I (a.apply fed) (record fed a g))
    (hQR : ∀ fed g a, I fed g → ok fed a → (Q fed g a ↔ R fed a))
    (h : StepsMeet Node.step (MeetsAt r ok) Node.new es) :
    StepsMeet (logged Node.step (track r record)) (MeetsWith r Q) (Node.new, g₀) es ↔
      StepsMeet Node.step (MeetsAt r R) Node.new es := by
  have h' : StepsMeet (logged Node.step (track r record)) (MeetsWith r fun fed _ a => ok fed a)
    (Node.new, g₀) es := h.logged g₀
  have weaken : ∀ {Q R : Federation → G → FedAction → Prop},
      (∀ fed g a, I fed g → ok fed a → Q fed g a → R fed g a) →
      StepsMeet (logged Node.step (track r record)) (MeetsWith r Q) (Node.new, g₀) es →
      StepsMeet (logged Node.step (track r record)) (MeetsWith r R) (Node.new, g₀) es := by
    intro Q R himp hQ
    have hboth : StepsMeet (logged Node.step (track r record))
        (MeetsWith r fun fed g a => ok fed a ∧ Q fed g a) (Node.new, g₀) es :=
      (h'.and hQ).mono fun _ _ hok ra ha hr => ⟨hok.1 ra ha hr, hok.2 ra ha hr⟩
    exact track_each_with hnew (fun fed g a hinv hok => keeps fed g a hinv hok.1)
      (fun fed g a hinv hok => himp fed g a hinv hok.1 hok.2) hboth
  constructor
  · intro hQ
    have hR : StepsMeet (logged Node.step (track r record)) (fun s e => MeetsAt r R s.1 e)
        (Node.new, g₀) es :=
      weaken (R := fun fed _ a => R fed a) (fun fed g a hinv hok => (hQR fed g a hinv hok).mp) hQ
    exact hR.of_logged
  · intro hR
    have hR : StepsMeet (logged Node.step (track r record)) (MeetsWith r fun fed _ a => R fed a)
        (Node.new, g₀) es := hR.logged g₀
    exact weaken (fun fed g a hinv hok => (hQR fed g a hinv hok).mpr) hR

end Track

end Node

namespace FedAction

/-- A federate enters under the handle, or the federation is new. -/
def enters (fed : Federation) (h : FederateHandle) : FedAction → Bool
  | create _ _ => true
  | join requested sessionId =>
    match (fed.join requested sessionId).2 with
    | .ok (handle, _) => decide (handle = h)
    | .error _ => false
  | leave _ => false
  | serve _ _ => false

/-- The action is the request of a restore. -/
def restores : FedAction → Bool
  | serve _ (.saveRestore r) => r.restores
  | _ => false

theorem eq_of_restores {c : Caller} {req : ServiceRequest} (h : (serve c req).restores = true) :
    ∃ label, req = .saveRestore (.requestFederationRestore label) := by
  cases req with
  | saveRestore r =>
    cases r with
    | requestFederationRestore label => exact ⟨label, rfl⟩
    | _ => cases h
  | _ => cases h

/-- The federate, if it is joined, is connected when a call is served. -/
def Reaches (h : FederateHandle) (fed : Federation) : FedAction → Prop
  | serve c _ => ∀ fs ∈ fed.federates.lookup h, fs.sessionId ∈ c.connections
  | _ => True

instance (h : FederateHandle) (fed : Federation) : (a : FedAction) → Decidable (a.Reaches h fed)
  | .create .. | .join .. | .leave .. => .isTrue trivial
  | .serve c _ =>
    inferInstanceAs (Decidable (∀ fs ∈ fed.federates.lookup h, fs.sessionId ∈ c.connections))

/-- Where nobody enters under the handle, its record is what it was, or it is
gone. -/
theorem lookup_of_membership {fed : Federation} {h : FederateHandle} {a : FedAction}
    (ha : ∀ c req, a ≠ .serve c req) (hent : a.enters fed h = false) {fs : FederateSession}
    (hfs : (a.apply fed).federates.lookup h = some fs) : fed.federates.lookup h = some fs := by
  cases a with
  | create => cases hent
  | join requested sessionId =>
    rw [enters] at hent
    rw [apply] at hfs
    rcases fed.join_cases requested sessionId with ⟨e, he⟩ | ⟨name, he⟩
    · rw [he] at hfs
      exact hfs
    · rw [he] at hent hfs
      rw [Federation.lookup_enter, if_neg (Ne.symm (of_decide_eq_false hent))] at hfs
      exact hfs
  | leave => exact (HashMap.lookup_erase_eq_some.mp hfs).2
  | serve c req => exact absurd rfl (ha c req)

/-- Whoever has just entered has the record of a new federate. -/
theorem lookup_of_enters {fed : Federation} {h : FederateHandle} {a : FedAction}
    (hent : a.enters fed h = true) {fs : FederateSession}
    (hfs : (a.apply fed).federates.lookup h = some fs) :
    ∃ name sessionId, fs = .new h name sessionId := by
  cases a with
  | create => cases hfs
  | join requested sessionId =>
    rw [enters] at hent
    rw [apply] at hfs
    rcases fed.join_cases requested sessionId with ⟨e, he⟩ | ⟨name, he⟩
    · rw [he] at hent
      cases hent
    · rw [he] at hent hfs
      have hh : fed.nextHandle = h := of_decide_eq_true hent
      rw [Federation.lookup_enter, if_pos hh.symm, hh] at hfs
      exact ⟨name, sessionId, (Option.some.inj hfs).symm⟩
  | leave => cases hent
  | serve => cases hent

end FedAction

namespace Node

/-! ## What a call sends -/

/-- No grant, and no callback but reports. -/
def Reports (o : CallOutcome) : Prop := o.grants = [] ∧ ∀ cb ∈ o.callbacks, cb.body.On .report

theorem reports_respond (n : Node) (response : Resp) : Reports (n.respond response []) :=
  ⟨rfl, List.forall_mem_nil _⟩

theorem reports_report (n : Node) (s : Session) (response : Resp) {body : CallbackRequest}
    (hbody : body.On .report) : Reports (n.respond response (n.report s body)) := by
  refine ⟨rfl, ?_⟩
  intro cb hcb
  obtain ⟨target, _, rfl⟩ := List.mem_map.mp hcb
  exact hbody

theorem reports_serveFederation (n : Node) (t : Transport) (s : Session) (env : CallEnv)
    (r : FederationRequest) : Reports (n.serveFederation t s env r) := by
  cases r with
  | createFederationExecution form name modules =>
    rw [serveFederation]
    cases n.createFederation env name modules with
    | error | ok => exact reports_respond ..
  | destroyFederationExecution name =>
    rw [serveFederation]
    cases n.destroyFederation name with
    | error | ok => exact reports_respond ..
  | listFederationExecutionMembers =>
    refine reports_report _ _ _ ?_
    rw [listMembers]
    split <;> rfl
  | listFederationExecutions => exact reports_report _ _ _ rfl
  | joinFederationExecution =>
    rw [serveFederation, join]
    split
    · exact reports_respond ..
    · split
      · exact reports_respond ..
      · dsimp only
        split <;> exact reports_respond ..
  | resignFederationExecution =>
    rw [serveFederation, resign]
    split <;> exact reports_respond ..

theorem callAction_federation {n : Node} {s : Session} {env : CallEnv} {fr : FederationRequest}
    {r : FedRef} {c : Caller} {req : ServiceRequest} :
    n.callAction s env (.federation fr) ≠ some (r, .serve c req) := by
  intro h
  cases fr with
  | createFederationExecution =>
    rw [callAction] at h
    split at h <;> cases h
  | destroyFederationExecution => cases h
  | listFederationExecutionMembers => cases h
  | listFederationExecutions => cases h
  | joinFederationExecution =>
    rw [callAction] at h
    split at h
    · cases h
    · obtain ⟨_, _, h⟩ := Option.map_eq_some_iff.mp h
      cases h
  | resignFederationExecution =>
    obtain ⟨_, _, h⟩ := Option.map_eq_some_iff.mp h
    cases h

/-- A request is served for the member whose session asks. -/
theorem action_serve {n : Node} {e : NodeEvent} {r : FedRef} {c : Caller} {req : ServiceRequest}
    (h : n.action e = some (r, .serve c req)) :
    ∃ t s m env, e = .call t env (.service req) ∧ n.sessions.lookup t = some s ∧
      s.membership = some m ∧ r = m.federation ∧ c = n.caller m env := by
  cases e with
  | call t env request =>
    obtain ⟨s, hs, h⟩ := Option.bind_eq_some_iff.mp h
    cases request with
    | federation => exact absurd h callAction_federation
    | service =>
      obtain ⟨m, hm, he⟩ := Option.map_eq_some_iff.mp h
      cases he
      exact ⟨t, s, m, env, rfl, hs, hm, rfl, rfl⟩
    | _ => cases h
  | close =>
    obtain ⟨s, _, h⟩ := Option.bind_eq_some_iff.mp h
    split at h
    · cases h
    · obtain ⟨m, _, he⟩ := Option.map_eq_some_iff.mp h
      cases he
  | janitorRemove =>
    obtain ⟨sid, _, h⟩ := Option.bind_eq_some_iff.mp h
    obtain ⟨s, _, he⟩ := Option.map_eq_some_iff.mp h
    cases he
  | _ => cases h

theorem action_of_membership {n : Node} {t : Transport} {m : Membership}
    (h : (n.sessions.lookup t).bind Session.membership = some m) (env : CallEnv)
    (req : ServiceRequest) :
    n.action (.call t env (.service req)) = some (m.federation, .serve (n.caller m env) req) := by
  obtain ⟨s, hs, hm⟩ := Option.bind_eq_some_iff.mp h
  rw [action, hs, Option.bind_some, callAction, hm]
  rfl

variable {n : Node} {t : Transport} {env : CallEnv} {request : CallRequest} {o : CallOutcome}

theorem outcome_serve (h : n.outcome t env request = some o) {r : FedRef} {c : Caller}
    {req : ServiceRequest} (ha : n.action (.call t env request) = some (r, .serve c req)) :
    o.callbacks = (serve c (n.heap r) req).callbacks ∧
      o.grants = (serve c (n.heap r) req).grants ∧
      o.node.heap r = (serve c (n.heap r) req).federation := by
  obtain ⟨t', s, m, env', he, hs, hm, rfl, rfl⟩ := action_serve ha
  cases he
  have hcall : n.dispatchCall t s env (.service req) = n.serveMember m env req := by
    rw [dispatchCall, hm]
  have ho : o = n.serveMember m env req := by
    rw [outcome, hs, Option.map_some, hcall] at h
    exact (Option.some.inj h).symm
  subst ho
  refine ⟨rfl, rfl, ?_⟩
  rw [← hcall, heap_dispatchCall, callAction, hm]
  exact Function.update_self ..

theorem outcome_reports (h : n.outcome t env request = some o)
    (ha : ∀ r c req, n.action (.call t env request) ≠ some (r, .serve c req)) : Reports o := by
  obtain ⟨s, hs, rfl⟩ := Option.map_eq_some_iff.mp h
  simp only [action, hs, Option.bind_some] at ha
  cases request with
  | malformed | unset => exact reports_respond ..
  | stateless r =>
    rw [dispatchCall]
    cases statelessResponse r with
    | error | ok => exact reports_respond ..
  | federation => exact reports_serveFederation ..
  | service req =>
    rw [dispatchCall]
    cases hm : s.membership with
    | none => exact reports_respond ..
    | some m => exact absurd (by rw [callAction, hm]; rfl) (ha m.federation (n.caller m env) req)

theorem Reports.quiet (h : Reports o) : o.Quiet :=
  ⟨h.1, fun cb hcb => (h.2 cb hcb).untimed (by decide)⟩

/-- The callbacks of a call are those of the request it serves, or reports. -/
theorem outcome_cases (h : n.outcome t env request = some o) :
    (∃ r c req, n.action (.call t env request) = some (r, .serve c req) ∧
      o.callbacks = (serve c (n.heap r) req).callbacks) ∨ Reports o := by
  by_cases ha : ∃ r c req, n.action (.call t env request) = some (r, .serve c req)
  · obtain ⟨r, c, req, ha⟩ := ha
    exact .inl ⟨r, c, req, ha, (outcome_serve h ha).1⟩
  · exact .inr (outcome_reports h fun r c req he => ha ⟨r, c, req, he⟩)

end Node

/-! ## A small federation

Two federates, of handles 1 and 2, on transports 0 and 1, with one object class
(one attribute) and one interaction class.  The fixed runs of the modules that
follow start here. -/

def smallModule : Omt.FomModule where
  objectClasses :=
    [⟨"O", none, [⟨"a", "", .timestampOrder, "", .noTransfer, .neither, .static, []⟩], none⟩]
  interactionClasses := [⟨"I", none, .timestampOrder, "", [], none⟩]

/-- Entry order everywhere; every FOM file is the small module. -/
def CallEnv.plain : CallEnv :=
  { Env.plain with names := .stored, parse := fun _ => .parsed smallModule }

namespace NodeEvent

/-- A service call. -/
def serves (t : Transport) (r : ServiceRequest) : NodeEvent := .call t .plain (.service r)

/-- A federation management call. -/
def manages (t : Transport) (r : FederationRequest) : NodeEvent := .call t .plain (.federation r)

/-- A transport opens a new session. -/
def opens : NodeEvent := .accept (.newSession federateProtocolVersion) true

/-- A session joins the small federation. -/
def joins (t : Transport) : NodeEvent := .manages t (.joinFederationExecution .plain "" "f")

end NodeEvent

def pairJoined : List NodeEvent :=
  [.opens, .manages 0 (.createFederationExecution .withModules "f" [.file "m" []]), .joins 0,
    .opens, .joins 1]

/-- A handle of four bytes. -/
def wire32 (n : UInt8) : WireField := some [0, 0, 0, n]

/-- A handle of eight bytes. -/
def wire64 (n : UInt8) : WireField := some [0, 0, 0, 0, 0, 0, 0, n]

/-- The times 1, 3 and 5. -/
def wireOne : WireField := some [0x3F, 0xF0, 0, 0, 0, 0, 0, 0]
def wireThree : WireField := some [0x40, 0x08, 0, 0, 0, 0, 0, 0]
def wireFive : WireField := some [0x40, 0x14, 0, 0, 0, 0, 0, 0]

/-- Federate 1 regulates with lookahead 1; federate 2 is constrained and holds
an interaction of time 3 in its queue. -/
def pairCoordinated : List NodeEvent := pairJoined ++
  [.serves 0 (.declaration (.publishInteractionClass (wire32 1))),
    .serves 1 (.declaration (.subscribeInteractionClass false (wire32 1))),
    .serves 0 (.time (.enableTimeRegulation wireOne)),
    .serves 1 (.time .enableTimeConstrained),
    .serves 0 (.object (.sendInteractionWithTime false (wire32 1) none [] wireThree))]

/-- Federate 2 asks for time 5 and has to wait. -/
def pairWaiting : List NodeEvent :=
  pairCoordinated ++ [.serves 1 (.time (.advance .timeAdvanceRequest wireFive))]

/-- An update of the one attribute of the one instance. -/
def updateAt (stamp : WireField) : ServiceRequest :=
  .object (.updateAttributeValuesWithTime (wire64 1) (some [(wire32 1, [])]) [] stamp)

def advanceTo (time : WireField) : ServiceRequest := .time (.advance .timeAdvanceRequest time)

/-- Federate 1 registers an instance, and federate 2 subscribes to its
attribute. -/
def pairUpdating : List NodeEvent := pairJoined ++
  [.serves 0 (.declaration (.publishObjectClassAttributes (wire32 1) (some [[0, 0, 0, 1]]))),
    .serves 1 (.declaration (.subscribeObjectClassAttributes .plain (wire32 1)
      (some [[0, 0, 0, 1]]))),
    .serves 0 (.object (.registerObjectInstance (wire32 1)))]

end Hla4
