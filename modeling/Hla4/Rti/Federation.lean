/-
# `Hla4.Rti.Federation` — the state of a federation

The records of `hla-rti` a federation is made of, the updates its services
make, and a vocabulary for what an update leaves alone.

**Invariants carried by types.**  A federate's time state is a `Lib.Party ℚ`:
its lookahead is not negative and it never waits for a time in its past.  Its
timestamp queue is a `Lib.SortedQueue`.

**Parts.**  The state is divided into `Part`s; `Federation.view` is what one
part holds.  `Touches ps fed fed'` says that an update from `fed` to `fed'`
changed nothing outside `ps`.  Each group of services has one `Touches` lemma,
and an invariant that reads only other parts is kept by that group at once.
-/
import Hla4.Lib.Conservative
import Hla4.Lib.SortedQueue
import Hla4.Rti.Subscription
import Hla4.Rti.Wire

namespace Hla4

open Lib

/-! ## Records -/

structure ObjectInstance where
  handle : ObjectInstanceHandle
  cls : ObjectClassHandle
  name : String
  registrar : FederateHandle
  attributeOwners : HashMap AttributeHandle FederateHandle
  attributeRegions : MultiMap AttributeHandle RegionHandle

structure PubSubState where
  publishedAttrs : MultiMap ObjectClassHandle AttributeHandle
  subscribedAttrs : MultiMap ObjectClassHandle AttributeHandle
  publishedInteractions : HashSet InteractionClassHandle
  subscribedInteractions : HashSet InteractionClassHandle
  discoveredInstances : HashSet ObjectInstanceHandle
  subscribedAttrsRegions : MultiMap (ObjectClassHandle × AttributeHandle) RegionHandle
  subscribedDirectedInteractions : MultiMap ObjectClassHandle InteractionClassHandle
  publishedDirectedInteractions : MultiMap ObjectClassHandle InteractionClassHandle

/-- `PubSubState::default`. -/
def PubSubState.empty : PubSubState := ⟨∅, ∅, ∅, ∅, ∅, ∅, ∅, ∅⟩

structure Switches where
  objectClassRelevanceAdvisory : Bool := true
  attributeRelevanceAdvisory : Bool := true
  attributeScopeAdvisory : Bool := true
  interactionRelevanceAdvisory : Bool := true
  conveyRegionDesignatorSets : Bool := false
  serviceReporting : Bool := false
  exceptionReporting : Bool := false
  sendServiceReportsToFile : Bool := false
  autoProvide : Bool := false
  delaySubscriptionEvaluation : Bool := false
  advisoriesUseKnownClass : Bool := false
  allowRelaxedDdm : Bool := true
  nonRegulatedGrant : Bool := false
  automaticResignDirective : ResignAction := .noAction

/-- A timestamped message held back until its receiver may have it, under its
own timestamp. -/
structure TsoMessage where
  time : Timestamp
  callback : CallbackRequest
  stamped : callback.timestamp = some time.toF64

abbrev TsoQueue := SortedQueue TsoMessage.time

/-- A federate's time-management state. -/
abbrev TimeState := Party ℚ

/-- `TimeState::default`: at time 0, neither regulating nor constrained. -/
def TimeState.initial : TimeState where
  isRegulating := false
  isConstrained := false
  currentTime := 0
  lookahead := 0
  pendingAdvance := none
  lookahead_nonneg := le_refl 0
  current_le_pending := fun _ h => nomatch h

structure FederateSession where
  handle : FederateHandle
  name : String
  federateType : String
  sessionId : UInt64
  pubSub : PubSubState
  time : TimeState
  switches : Switches
  tsoQueue : TsoQueue

inductive SaveStatus
  | initiated
  | begunSave
  | saveComplete
  | saveNotComplete
deriving DecidableEq

inductive RestoreStatus
  | initiated
  | complete
  | notComplete
deriving DecidableEq

structure SaveOperation where
  label : String
  statuses : HashMap FederateHandle SaveStatus

structure RestoreOperation where
  label : String
  statuses : HashMap FederateHandle RestoreStatus

/-- A DDM region: bounds in force, and bounds staged for the next commit. -/
structure Region where
  handle : RegionHandle
  owner : FederateHandle
  committed : HashMap DimensionHandle (UInt32 × UInt32)
  staged : HashMap DimensionHandle (UInt32 × UInt32)

structure SyncPoint where
  label : String
  tag : Bytes
  participants : HashSet FederateHandle
  achieved : HashSet FederateHandle
  failedToSync : HashSet FederateHandle

structure Federation where
  name : String
  fom : Omt.MergedFom
  federates : HashMap FederateHandle FederateSession
  objectInstances : HashMap ObjectInstanceHandle ObjectInstance
  subscriptions : SubscriptionMatrix
  syncPoints : HashMap String SyncPoint
  regions : HashMap RegionHandle Region
  nextRegionId : UInt64
  currentSave : Option SaveOperation
  currentRestore : Option RestoreOperation
  lastSaveLabel : Option String
  nextObjectId : UInt64
  nextFederateId : UInt32

namespace Federation

def new (name : String) (fom : Omt.MergedFom) : Federation where
  name
  fom
  federates := ∅
  objectInstances := ∅
  subscriptions := .empty
  syncPoints := ∅
  regions := ∅
  nextRegionId := 1
  currentSave := none
  currentRestore := none
  lastSaveLabel := none
  nextObjectId := 1
  nextFederateId := 1

variable (fed : Federation)

/-- Update the record of one federate, if it is joined (`get_mut`). -/
def modifyFederate (h : FederateHandle) (f : FederateSession → FederateSession) : Federation :=
  { fed with federates := fed.federates.modify h f }

/-- Update the record of every federate (`iter_mut`). -/
def modifyFederates (f : FederateHandle → FederateSession → FederateSession) : Federation :=
  { fed with federates := fed.federates.mapValues f }

/-- The federates as a network of conservatively coordinated parties. -/
def net : Net FederateHandle ℚ := fun h => (fed.federates.lookup h).map (·.time)

/-- The timestamp queues. -/
def queue (h : FederateHandle) : Option TsoQueue := (fed.federates.lookup h).map (·.tsoQueue)

end Federation

/-! ## Parts -/

/-- The parts of a federate's record. -/
inductive FederatePart
  | identity
  | published
  | subscribed
  | discovered
  | subscribedRegions
  | directed
  | time
  | switches
  | queue
deriving DecidableEq

/-- What a part of a federate's record holds. -/
def FederatePart.Carrier : FederatePart → Type
  | identity => FederateHandle × String × String × UInt64
  | published => MultiMap ObjectClassHandle AttributeHandle × HashSet InteractionClassHandle
  | subscribed => MultiMap ObjectClassHandle AttributeHandle × HashSet InteractionClassHandle
  | discovered => HashSet ObjectInstanceHandle
  | subscribedRegions => MultiMap (ObjectClassHandle × AttributeHandle) RegionHandle
  | directed => MultiMap ObjectClassHandle InteractionClassHandle ×
      MultiMap ObjectClassHandle InteractionClassHandle
  | time => TimeState
  | switches => Switches
  | queue => TsoQueue

def FederatePart.get : (p : FederatePart) → FederateSession → p.Carrier
  | identity, fs => (fs.handle, fs.name, fs.federateType, fs.sessionId)
  | published, fs => (fs.pubSub.publishedAttrs, fs.pubSub.publishedInteractions)
  | subscribed, fs => (fs.pubSub.subscribedAttrs, fs.pubSub.subscribedInteractions)
  | discovered, fs => fs.pubSub.discoveredInstances
  | subscribedRegions, fs => fs.pubSub.subscribedAttrsRegions
  | directed, fs =>
    (fs.pubSub.subscribedDirectedInteractions, fs.pubSub.publishedDirectedInteractions)
  | time, fs => fs.time
  | switches, fs => fs.switches
  | queue, fs => fs.tsoQueue

/-- The parts of a federation. -/
inductive Part
  | federate (p : FederatePart)
  | model
  | instances
  | subscriptions
  | syncPoints
  | regions
  | saveRestore
  | counters
deriving DecidableEq

def Part.Carrier : Part → Type
  | federate p => FederateHandle → Option p.Carrier
  | model => String × Omt.MergedFom
  | instances => HashMap ObjectInstanceHandle ObjectInstance
  | subscriptions => SubscriptionMatrix
  | syncPoints => HashMap String SyncPoint
  | regions => HashMap RegionHandle Region
  | saveRestore => Option SaveOperation × Option RestoreOperation × Option String
  | counters => UInt64 × UInt64 × UInt32

namespace Federation

/-- What a part of the federation holds. -/
def view (fed : Federation) : (p : Part) → p.Carrier
  | .federate p => fun h => (fed.federates.lookup h).map p.get
  | .model => (fed.name, fed.fom)
  | .instances => fed.objectInstances
  | .subscriptions => fed.subscriptions
  | .syncPoints => fed.syncPoints
  | .regions => fed.regions
  | .saveRestore => (fed.currentSave, fed.currentRestore, fed.lastSaveLabel)
  | .counters => (fed.nextRegionId, fed.nextObjectId, fed.nextFederateId)

/-- Nothing outside the parts `ps` changed from `fed` to `fed'`. -/
def Touches (ps : List Part) (fed fed' : Federation) : Prop :=
  ∀ p, p ∉ ps → fed'.view p = fed.view p

variable {fed fed' fed'' : Federation} {ps qs : List Part} {f : FederateHandle}
  {fs fs' : FederateSession}

namespace Touches

theorem refl : Touches ps fed fed := fun _ _ => rfl

theorem trans (h : Touches ps fed fed') (h' : Touches ps fed' fed'') : Touches ps fed fed'' :=
  fun p hp => (h' p hp).trans (h p hp)

theorem symm (h : Touches ps fed fed') : Touches ps fed' fed := fun p hp => (h p hp).symm

theorem mono (hs : ps ⊆ qs) (h : Touches ps fed fed') : Touches qs fed fed' :=
  fun p hp => h p fun hps => hp (hs hps)

theorem foldl {α : Type} {f : Federation → α → Federation}
    (hf : ∀ fed a, Touches ps fed (f fed a)) (l : List α) : Touches ps fed (l.foldl f fed) := by
  induction l generalizing fed with
  | nil => exact refl
  | cons a l ih => exact (hf fed a).trans ih

/-- A part outside the footprint, read through one federate's record. -/
theorem federate (h : Touches ps fed fed') {p : FederatePart} (hp : Part.federate p ∉ ps)
    (f : FederateHandle) :
    (fed'.federates.lookup f).map p.get = (fed.federates.lookup f).map p.get :=
  congrFun (h (.federate p) hp) f

theorem net (h : Touches ps fed fed') (hp : Part.federate .time ∉ ps) : fed'.net = fed.net :=
  h (.federate .time) hp

theorem queue (h : Touches ps fed fed') (hp : Part.federate .queue ∉ ps) :
    fed'.queue = fed.queue :=
  h (.federate .queue) hp

end Touches

/-- New records touch the parts in which they differ from the old ones. -/
theorem touches_federates (ps : List FederatePart) {m : HashMap FederateHandle FederateSession}
    (hm : ∀ k q, q ∉ ps → (m.lookup k).map q.get = (fed.federates.lookup k).map q.get) :
    Touches (ps.map .federate) fed { fed with federates := m } := by
  intro p hp
  cases p with
  | federate q => exact funext fun k => hm k q fun hq => hp (List.mem_map_of_mem hq)
  | _ => rfl

/-- Updating one federate's record touches what the update touches. -/
theorem touches_modifyFederate (ps : List FederatePart) {h : FederateHandle}
    {f : FederateSession → FederateSession} (hf : ∀ fs q, q ∉ ps → q.get (f fs) = q.get fs) :
    Touches (ps.map .federate) fed (fed.modifyFederate h f) := by
  refine touches_federates ps fun k q hq => ?_
  rw [HashMap.lookup_modify]
  split
  · next hk =>
      rw [hk, Option.map_map]
      exact congrFun (congrArg Option.map (funext fun fs => hf fs q hq)) _
  · rfl

/-- Updating every federate's record touches what the update touches. -/
theorem touches_modifyFederates (ps : List FederatePart)
    {f : FederateHandle → FederateSession → FederateSession}
    (hf : ∀ h fs q, q ∉ ps → q.get (f h fs) = q.get fs) :
    Touches (ps.map .federate) fed (fed.modifyFederates f) := by
  refine touches_federates ps fun k q hq => ?_
  rw [HashMap.lookup_mapValues, Option.map_map]
  exact congrFun (congrArg Option.map (funext fun fs => hf k fs q hq)) _

/-! An update of a federation-wide record touches its part. -/

theorem touches_instances {m : HashMap ObjectInstanceHandle ObjectInstance} :
    Touches [.instances] fed { fed with objectInstances := m } := by
  intro p hp
  cases p <;> first | rfl | exact absurd (List.mem_singleton_self _) hp

theorem touches_subscriptions {m : SubscriptionMatrix} :
    Touches [.subscriptions] fed { fed with subscriptions := m } := by
  intro p hp
  cases p <;> first | rfl | exact absurd (List.mem_singleton_self _) hp

theorem touches_syncPoints {m : HashMap String SyncPoint} :
    Touches [.syncPoints] fed { fed with syncPoints := m } := by
  intro p hp
  cases p <;> first | rfl | exact absurd (List.mem_singleton_self _) hp

theorem touches_regions {m : HashMap RegionHandle Region} :
    Touches [.regions] fed { fed with regions := m } := by
  intro p hp
  cases p <;> first | rfl | exact absurd (List.mem_singleton_self _) hp

theorem touches_saveRestore {s : Option SaveOperation} {r : Option RestoreOperation}
    {l : Option String} :
    Touches [.saveRestore] fed
      { fed with currentSave := s, currentRestore := r, lastSaveLabel := l } := by
  intro p hp
  cases p <;> first | rfl | exact absurd (List.mem_singleton_self _) hp

theorem touches_counters {r o : UInt64} {f : UInt32} :
    Touches [.counters] fed
      { fed with nextRegionId := r, nextObjectId := o, nextFederateId := f } := by
  intro p hp
  cases p <;> first | rfl | exact absurd (List.mem_singleton_self _) hp

/-- A part outside the footprint, between the records of one federate. -/
theorem Touches.get_eq (h : Touches ps fed fed') {p : FederatePart} (hp : Part.federate p ∉ ps)
    (hfs : fed.federates.lookup f = some fs) (hfs' : fed'.federates.lookup f = some fs') :
    p.get fs' = p.get fs := by
  have := h.federate hp f
  rw [hfs, hfs'] at this
  exact Option.some.inj this

/-- Whoever is joined after a change was joined before, and its record had the same
part outside the footprint. -/
theorem Touches.record_before (h : Touches ps fed fed') {p : FederatePart}
    (hp : Part.federate p ∉ ps) (hfs' : fed'.federates.lookup f = some fs') :
    ∃ fs, fed.federates.lookup f = some fs ∧ p.get fs = p.get fs' := by
  have hpart := h.federate hp f
  rw [hfs', Option.map_some, eq_comm, Option.map_eq_some_iff] at hpart
  exact hpart

theorem Touches.lookup_before (h : Touches ps fed fed') (hp : Part.federate .identity ∉ ps)
    (hfs' : fed'.federates.lookup f = some fs') :
    ∃ fs, fed.federates.lookup f = some fs ∧ fs.sessionId = fs'.sessionId := by
  obtain ⟨fs, hfs, hid⟩ := h.record_before hp hfs'
  exact ⟨fs, hfs, congrArg (fun i => i.2.2.2) hid⟩

theorem Touches.lookup_after (h : Touches ps fed fed') (hp : Part.federate .identity ∉ ps)
    (hfs : fed.federates.lookup f = some fs) :
    ∃ fs', fed'.federates.lookup f = some fs' ∧ fs'.sessionId = fs.sessionId :=
  h.symm.lookup_before hp hfs

theorem Touches.mem_federates (h : Touches ps fed fed') (hp : Part.federate .identity ∉ ps)
    (f : FederateHandle) : f ∈ fed'.federates ↔ f ∈ fed.federates := by
  have := congrArg Option.isSome (h.federate hp f)
  rw [Option.isSome_map, Option.isSome_map] at this
  rw [← AList.lookup_isSome, ← AList.lookup_isSome, this]

end Federation

end Hla4
