/-
# `Hla4.Rti.Safety.LockOrder` — the locks of the server are taken in order

The node and every federation have a lock for each of their tables
(`parking_lot::RwLock`, and one for each `DashMap`).  Most guards are dropped
before the next is taken.  Where they are not:

    create                     federations ⊃ default_fom
    destroy, list members      federations ⊃ federates, connections
    live_connections           federates ⊃ connections
    unsubscribe object class   federates ⊃ subscriptions
    snapshot                   federates ⊃ object_instances, sync_points
    filter by regions          federates ⊃ regions
    request save               current_save ⊃ last_save_label

All of these ascend in one order (`LockName.rank`), no lock is taken again while
it is held, and no handler holds locks of two federations.  Whatever runs at the
same time, there is no deadlock (`no_lock_deadlock`).

The guards of a function are under the function's name, in the order of the
source.  A service works on the federation `r` of its session; a federation
found by name is an argument too, as nothing depends on which it is.
-/
import Hla4.Lib.Locks
import Hla4.Rti.Node

namespace Hla4

open Lib

inductive NodeLock
  | federations
  | defaultFom
  | connections
  | heartbeat
  | limits
  | connectionsPerIp
  | saveDir
  | suspendedSessions
deriving DecidableEq

inductive FederationLock
  | federates
  | objectInstances
  | subscriptions
  | syncPoints
  | regions
  | currentSave
  | currentRestore
  | lastSaveLabel
deriving DecidableEq

inductive LockName
  | node (l : NodeLock)
  | federation (r : FedRef) (l : FederationLock)
deriving DecidableEq

def LockName.rank : LockName → Nat
  | node .federations => 0
  | federation _ .federates => 1
  | federation _ .currentSave => 1
  | _ => 2

/-- A guard of one statement or block. -/
def LockName.read (l : LockName) : Locking LockName := .brief l .read
def LockName.write (l : LockName) : Locking LockName := .brief l .write

namespace Guards

open Locking LockName

/-! ## Routing and time -/

section Helpers

variable (r : FedRef)

def federates : LockName := .federation r .federates
def objectInstances : LockName := .federation r .objectInstances
def subscriptions : LockName := .federation r .subscriptions
def syncPoints : LockName := .federation r .syncPoints
def regions : LockName := .federation r .regions
def currentSave : LockName := .federation r .currentSave
def currentRestore : LockName := .federation r .currentRestore
def lastSaveLabel : LockName := .federation r .lastSaveLabel

/-- `subscribers_for_attributes` and `subscribers_for_interaction` -/
def subscribersFor : Locking LockName := (subscriptions r).read

def liveConnections : Locking LockName :=
  .holding (federates r) .read (.loop (LockName.node .connections).read)

/-- The four `emit_…` functions. -/
def emitAdvisory : Locking LockName := .inTurn [(federates r).read, liveConnections r]

def lbts : Locking LockName := (federates r).read

/-- The recursion of the source is a loop here. -/
def tryGrantPendingAdvances : Locking LockName :=
  .loop (.inTurn [lbts r, (federates r).read, (federates r).write, .loop (liveConnections r), lbts r])

def drainTsoUpTo : Locking LockName := .inTurn [(federates r).write, liveConnections r]

def tryGrantPendingAdvancesWithTso : Locking LockName :=
  .inTurn [(federates r).read, lbts r, .loop (federates r).read, .loop (drainTsoUpTo r),
    tryGrantPendingAdvances r]

def routeTsoOrImmediate : Locking LockName :=
  .inTurn [(federates r).read, .maybe (liveConnections r), (federates r).write]

/-! ## Handlers -/

/-- Subscribing and unsubscribing: the edge is looked for before and after. -/
def resubscribe : Locking LockName :=
  .inTurn [(subscriptions r).read, (federates r).write, (subscriptions r).write,
    (subscriptions r).read, emitAdvisory r]

/-- Neither guard is dropped before the end. -/
def unsubscribeObjectClass : Locking LockName :=
  .holding (federates r) .write (subscriptions r).write

def declaration : DeclarationRequest → Locking LockName
  | .publishObjectClassAttributes .. => (federates r).write
  | .unpublishObjectClassAttributes .. => (federates r).write
  | .subscribeObjectClassAttributes .. => resubscribe r
  | .unsubscribeObjectClassAttributes .. => resubscribe r
  | .publishInteractionClass _ => (federates r).write
  | .unpublishInteractionClass _ => (federates r).write
  | .subscribeInteractionClass .. => resubscribe r
  | .unsubscribeInteractionClass _ => resubscribe r
  | .unpublishObjectClass _ => (federates r).write
  | .unsubscribeObjectClass _ => unsubscribeObjectClass r

def region : RegionRequest → Locking LockName
  | .createRegion _ => (regions r).write
  | .commitRegionModifications _ => (regions r).write
  | .deleteRegion _ => (regions r).write
  | .getRangeBounds .. => (regions r).read
  | .setRangeBounds .. => (regions r).write
  | .subscribeObjectClassAttributesWithRegions .. => resubscribe r
  | .unsubscribeObjectClassAttributesWithRegions .. => (federates r).write

def directed : DirectedRequest → Locking LockName
  | .sendDirectedInteraction .. =>
    .inTurn [(objectInstances r).read, (federates r).read, liveConnections r]
  | _ => (federates r).write

def notifySubscribersOfRegistration : Locking LockName :=
  .inTurn [(subscriptions r).read, (federates r).write, liveConnections r]

def notifySubscribersOfRegistrationSubset : Locking LockName :=
  .inTurn [(objectInstances r).read, (federates r).write, liveConnections r]

def registerObjectInstance : Locking LockName :=
  .inTurn [(federates r).read, .maybe (objectInstances r).read, (federates r).read,
    (objectInstances r).write, notifySubscribersOfRegistration r]

def registerObjectInstanceWithRegions : Locking LockName :=
  .inTurn [registerObjectInstance r, (objectInstances r).write]

/-- The regions are looked at for each subscriber, under the federates. -/
def filterSubscribersByRegions : Locking LockName :=
  .inTurn [(objectInstances r).read, .holding (federates r) .read (.loop (regions r).read)]

def object : ObjectRequest → Locking LockName
  | .registerObjectInstance _ => registerObjectInstance r
  | .registerObjectInstanceWithName .. => registerObjectInstance r
  | .registerObjectInstanceWithRegions .. => registerObjectInstanceWithRegions r
  | .registerObjectInstanceWithNameAndRegions .. => registerObjectInstanceWithRegions r
  | .updateAttributeValues .. =>
    .inTurn [(objectInstances r).read, subscribersFor r, .loop (filterSubscribersByRegions r),
      .maybe (notifySubscribersOfRegistrationSubset r), liveConnections r]
  | .updateAttributeValuesWithTime .. =>
    .inTurn [(objectInstances r).read, (federates r).read, subscribersFor r,
      .maybe (notifySubscribersOfRegistrationSubset r), routeTsoOrImmediate r]
  | .sendInteraction .. => .inTurn [(federates r).read, subscribersFor r, liveConnections r]
  | .sendInteractionWithTime .. =>
    .inTurn [(federates r).read, subscribersFor r, routeTsoOrImmediate r]
  | .deleteObjectInstance .. =>
    .inTurn [(objectInstances r).write, (federates r).write, liveConnections r]
  | .deleteObjectInstanceWithTime .. =>
    .inTurn [(objectInstances r).write, (federates r).write, routeTsoOrImmediate r]
  | .localDeleteObjectInstance _ => (federates r).write

def ownership : OwnershipRequest → Locking LockName
  | .isAttributeOwnedByFederate .. => (objectInstances r).read
  | .queryAttributeOwnership .. => .inTurn [(objectInstances r).read, liveConnections r]
  | .attributeOwnershipDivestiture .. =>
    .inTurn [(objectInstances r).write, (objectInstances r).read, subscribersFor r,
      liveConnections r]
  | .attributeOwnershipAcquisition .. => .inTurn [(objectInstances r).write, liveConnections r]

/-- The federates are held to the end. -/
def snapshot : Locking LockName :=
  .holding (federates r) .read (.inTurn [(objectInstances r).read, (syncPoints r).read])

def applySnapshot : Locking LockName :=
  .inTurn [(federates r).read, (objectInstances r).write, (syncPoints r).write]

def persistFederationSnapshotOnSuccess : Locking LockName :=
  .inTurn [(lastSaveLabel r).read, (LockName.node .saveDir).read, snapshot r]

def saveRestore : SaveRestoreRequest → Locking LockName
  | .requestFederationSave .. =>
    .inTurn [(federates r).read,
      .holding (currentSave r) .write (.maybe (lastSaveLabel r).write), liveConnections r]
  | .federateSaveBegun => (currentSave r).write
  | .federateSaveComplete =>
    .inTurn [(currentSave r).write, (federates r).read, liveConnections r,
      persistFederationSnapshotOnSuccess r]
  | .federateSaveNotComplete =>
    .inTurn [(currentSave r).write, (federates r).read, liveConnections r,
      persistFederationSnapshotOnSuccess r]
  | .abortFederationSave => (currentSave r).write
  | .requestFederationRestore _ =>
    -- an unreadable file is reported and ends the call
    .inTurn [(LockName.node .saveDir).read, .maybe (liveConnections r), (federates r).read,
      (currentRestore r).write, .maybe (applySnapshot r), liveConnections r, liveConnections r,
      .loop (liveConnections r)]
  | .federateRestoreComplete =>
    .inTurn [(currentRestore r).write, (federates r).read, liveConnections r]
  | .federateRestoreNotComplete =>
    .inTurn [(currentRestore r).write, (federates r).read, liveConnections r]
  | .abortFederationRestore => (currentRestore r).write

def syncPoint : SyncPointRequest → Locking LockName
  | .synchronizationPointAchieved .. => .inTurn [(syncPoints r).write, liveConnections r]
  | _ =>
    .inTurn [.maybe (federates r).read, (syncPoints r).write, liveConnections r, liveConnections r]

def time : TimeRequest → Locking LockName
  | .enableTimeRegulation _ =>
    .inTurn [(federates r).write, liveConnections r, tryGrantPendingAdvances r]
  | .disableTimeRegulation => .inTurn [(federates r).write, tryGrantPendingAdvances r]
  | .enableTimeConstrained => .inTurn [(federates r).write, liveConnections r]
  | .disableTimeConstrained => (federates r).write
  | .advance .. =>
    .inTurn [(federates r).write,
      .maybe (.inTurn [(federates r).write, drainTsoUpTo r, liveConnections r]),
      tryGrantPendingAdvancesWithTso r]
  | .modifyLookahead _ => (federates r).write

def lookup : LookupRequest → Locking LockName
  | .getSwitch _ => (federates r).read
  | .getAutomaticResignDirective => (federates r).read
  | .getObjectInstanceHandle _ => (objectInstances r).read
  | .getObjectInstanceName _ => (objectInstances r).read
  | .getKnownObjectClassHandle _ => (objectInstances r).read
  | .getDimensionHandleSet _ => (regions r).read
  | .getFederateHandle _ => (federates r).read
  | .getFederateName _ => (federates r).read
  | .queryLogicalTime => (federates r).read
  | .queryLookahead => (federates r).read
  | .queryLits => lbts r
  | .queryGalt => lbts r
  -- the rest is in the object model, which is not behind a lock
  | _ => .nothing

def service : ServiceRequest → Locking LockName
  | .declaration q => declaration r q
  | .region q => region r q
  | .directed q => directed r q
  | .object q => object r q
  | .ownership q => ownership r q
  | .saveRestore q => saveRestore r q
  | .syncPoint q => syncPoint r q
  | .time q => time r q
  | .switch _ => (federates r).write
  | .lookup q => lookup r q

end Helpers

/-- Federation management; `named` is the federation of the name, if any. -/
def federation (membership named : Option FedRef) : FederationRequest → Locking LockName
  | .createFederationExecution .. =>
    .holding (.node .federations) .write (.maybe (LockName.node .defaultFom).read)
  | .destroyFederationExecution _ =>
    .holding (.node .federations) .write
      (match named with
      | some r => (federates r).read
      | none => .nothing)
  | .listFederationExecutionMembers _ =>
    .holding (.node .federations) .read (.andThen (LockName.node .connections).read
      (match named with
      | some r => (federates r).read
      | none => .nothing))
  | .listFederationExecutions =>
    .andThen (LockName.node .federations).read (LockName.node .connections).read
  | .joinFederationExecution .. =>
    .inTurn ((LockName.node .federations).read ::
      match named with
      | some r => [.maybe (federates r).read, (federates r).write]
      | none => [])
  | .resignFederationExecution =>
    match membership with
    | some r => (federates r).write
    | none => .nothing

def dispatchCall (membership named : Option FedRef) : CallRequest → Locking LockName
  | .service q =>
    match membership with
    | some r => service r q
    | none => .nothing
  | .federation q => federation membership named q
  | _ => .nothing

/-! ## Connections -/

/-- `check_limits`, and the count of the address. -/
def accept : Locking LockName :=
  .inTurn [(LockName.node .limits).read, .maybe (LockName.node .connections).read,
    .maybe (LockName.node .connectionsPerIp).read, (LockName.node .connectionsPerIp).write]

/-- From the first frame to the session loop. -/
def setup : Locking LockName :=
  .inTurn [.maybe (LockName.node .suspendedSessions).write, (LockName.node .heartbeat).read,
    (LockName.node .connections).write]

/-- The session is suspended, or its federate leaves; then the connection is
removed, and the count of the address taken back (the guard of its entry is
dropped before the entry is removed). -/
def teardown (membership : Option FedRef) : Locking LockName :=
  .inTurn
    [match membership with
      | some r => .andThen (.maybe (LockName.node .suspendedSessions).write)
          (.maybe (federates r).write)
      | none => .nothing,
    (LockName.node .connections).write, (LockName.node .connectionsPerIp).write,
    (LockName.node .connectionsPerIp).write]

/-- One expired session. -/
def janitorRemove (r : FedRef) : Locking LockName :=
  .inTurn [(LockName.node .suspendedSessions).write, (federates r).write]

end Guards

/-- What a task of the server does that takes locks. -/
inductive Activity
  | dispatchCall (membership named : Option FedRef) (request : CallRequest)
  | accept
  | setup
  | teardown (membership : Option FedRef)
  | janitorScan
  | janitorRemove (r : FedRef)
  | setReconnectWindow
  | setDefaultFom
  | setSaveDir
  | setConnectionLimits

def Activity.guards : Activity → Locking LockName
  | dispatchCall membership named request => Guards.dispatchCall membership named request
  | accept => Guards.accept
  | setup => Guards.setup
  | teardown membership => Guards.teardown membership
  | janitorScan => (LockName.node .suspendedSessions).read
  | janitorRemove r => Guards.janitorRemove r
  | setReconnectWindow => (LockName.node .heartbeat).write
  | setDefaultFom => (LockName.node .defaultFom).write
  | setSaveDir => (LockName.node .saveDir).write
  | setConnectionLimits => (LockName.node .limits).write

/-! ## The order -/

theorem LockName.rank_le (l : LockName) : l.rank ≤ 2 := by
  unfold rank
  split <;> decide

theorem service_ascends (r : FedRef) (q : ServiceRequest) :
    (Guards.service r q).above LockName.rank 0 = true := by
  cases q with
  | declaration q | region q | directed q | object q | ownership q | saveRestore q | syncPoint q
  | time q | lookup q => cases q <;> rfl
  | switch q => rfl

theorem federation_ascends (membership named : Option FedRef) (q : FederationRequest) :
    (Guards.federation membership named q).above LockName.rank 0 = true := by
  cases q with
  | createFederationExecution => rfl
  | listFederationExecutions => rfl
  | destroyFederationExecution | listFederationExecutionMembers | joinFederationExecution =>
    cases named <;> rfl
  | resignFederationExecution => cases membership <;> rfl

/-- **Every lock is taken above those held.** -/
theorem guards_ascend (a : Activity) : a.guards.above LockName.rank 0 = true := by
  cases a with
  | dispatchCall membership named request =>
    cases request with
    | service q =>
      cases membership with
      | none => rfl
      | some r => exact service_ascends r q
    | federation q => exact federation_ascends membership named q
    | malformed => rfl
    | unset => rfl
    | stateless => rfl
  | teardown membership => cases membership <;> rfl
  | _ => rfl

/-- **No lock deadlock.**  However many tasks there are, whatever activities
they take up one after the other, and however their acquisitions and releases
interleave: in no state reached is there a set of tasks each of which waits for
a lock that one of the set holds or has queued for ahead of it. -/
theorem no_lock_deadlock {T : Type} [DecidableEq T] (es : List (LockEvent T Activity)) (D : Set T) :
    ¬ (run (Locks.step Activity.guards) (Locks.free : Locks T LockName) es).Deadlocked D :=
  Locks.no_deadlock LockName.rank_le guards_ascend es D

end Hla4
