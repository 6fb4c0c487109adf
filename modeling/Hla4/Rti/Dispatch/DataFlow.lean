/-
# `Hla4.Rti.Dispatch.DataFlow` — instances, updates and interactions

Handlers of `object_mgmt.rs`, `data_flow.rs` and `ddm_matching.rs`.

An update or an interaction goes to the federates subscribed along the class
chain.  An untimed update is then filtered by regions; a timestamped message is
either delivered now or held in the receiver's queue
(`routeTsoOrImmediate`), by each receiver's own time state.

    serveObject_confined   what the group can change; it sends data only
    serveObject_untimed    the same for the services without a timestamp
    serveObject_queue      what gets into a queue
-/
import Hla4.Rti.Dispatch.Declaration

namespace Hla4

open Lib

variable (c : Caller) (fed : Federation)

/-! ## Region matching -/

/-- On every dimension both regions have, their committed ranges meet. -/
def Region.overlaps (rp rs : Region) : Bool :=
  (rp.committed.keys.filter fun d => decide (d ∈ rs.committed)).all fun d =>
    match rp.committed.lookup d, rs.committed.lookup d with
    | some (lp, up), some (ls, us) => decide (lp ≤ us) && decide (ls ≤ up)
    | _, _ => true

/-- Some publication region overlaps some subscription region; an empty set on
either side is unrestricted. -/
def regionsOverlapAny (pub sub : HashSet RegionHandle) : Bool :=
  pub.keys.isEmpty || sub.keys.isEmpty ||
    pub.keys.any fun p => sub.keys.any fun s =>
      match fed.regions.lookup p, fed.regions.lookup s with
      | some rp, some rs => rp.overlaps rs
      | _, _ => false

/-- Keep the subscribers whose regions for `(cls, attr)` overlap the instance's
regions for `attr`. -/
def filterSubscribersByRegions (subscribers : HashSet FederateHandle)
    (inst : ObjectInstanceHandle) (cls : ObjectClassHandle) (attr : AttributeHandle) :
    HashSet FederateHandle :=
  match fed.objectInstances.lookup inst with
  | none => ∅
  | some i =>
    if (i.attributeRegions.get attr).keys.isEmpty then subscribers
    else subscribers.filter fun fh =>
      match fed.federates.lookup fh with
      | none => false
      | some fs => regionsOverlapAny fed (i.attributeRegions.get attr)
          (fs.pubSub.subscribedAttrsRegions.get (cls, attr))

/-! ## Discovery -/

/-- The joined candidates that have not discovered the instance. -/
def Federation.undiscovered (candidates : HashSet FederateHandle) (inst : ObjectInstanceHandle) :
    HashSet FederateHandle :=
  candidates.filter fun fh =>
    match fed.federates.lookup fh with
    | none => false
    | some fs => decide (inst ∉ fs.pubSub.discoveredInstances)

/-- Mark the instance discovered for every joined candidate. -/
def Federation.discover (candidates : HashSet FederateHandle) (inst : ObjectInstanceHandle) :
    Federation :=
  fed.modifyFederates fun h fs =>
    if h ∈ candidates then
      { fs with pubSub := { fs.pubSub with
          discoveredInstances := fs.pubSub.discoveredInstances.insert inst } }
    else fs

/-- Mark, and tell those for whom the instance is new. -/
def notifyDiscovery (candidates : HashSet FederateHandle) (inst : ObjectInstanceHandle)
    (cls : ObjectClassHandle) (name : String) (producer : FederateHandle) :
    Federation × List OutboundCallback :=
  let fed' := fed.discover candidates inst
  (fed', fanOut (fed'.liveConnections c (fed.undiscovered candidates inst))
    (.discoverObjectInstance inst cls name producer))

/-- At registration the candidates are the subscribers of the class and its
ancestors, by the matrix's reverse index. -/
def notifySubscribersOfRegistration (inst : ObjectInstanceHandle) (cls : ObjectClassHandle)
    (name : String) (producer : FederateHandle) : Federation × List OutboundCallback :=
  let candidates := HashSet.ofList <| (fed.fom.inheritanceChain cls).flatMap fun ancestor =>
    (fed.subscriptions.subscribersOfClass ancestor).filter fun f => f ≠ producer
  notifyDiscovery c fed candidates inst cls name producer

/-- At an update the candidates are given, to discover for late subscribers. -/
def notifySubscribersOfRegistrationSubset (inst : ObjectInstanceHandle) (cls : ObjectClassHandle)
    (producer : FederateHandle) (candidates : HashSet FederateHandle) :
    Federation × List OutboundCallback :=
  match fed.objectInstances.lookup inst with
  | none => (fed, [])
  | some i => notifyDiscovery c fed candidates inst cls i.name producer

/-! ## Timestamped messages -/

/-- A callback with a timestamp. -/
structure TimedCallback where
  time : F64
  body : CallbackRequest
  stamped : body.timestamp = some time

/-- The message under which a callback is held back from a federate: the
federate is constrained and the timestamp is ahead of it. -/
def FederateSession.holdsBack (fs : FederateSession) (cb : TimedCallback) : Option TsoMessage :=
  if fs.time.isConstrained then
    (cb.time.above fs.time.currentTime).map fun t =>
      ⟨t.1, cb.body, cb.stamped.trans (congrArg some t.2)⟩
  else none

/-- Deliver a timestamped message now, or queue it, by each subscriber's time
state. -/
def routeTsoOrImmediate (subscribers : HashSet FederateHandle) (cb : TimedCallback) :
    Federation × List OutboundCallback :=
  let immediate := subscribers.filter fun fh =>
    match fed.federates.lookup fh with
    | none => false
    | some fs => (fs.holdsBack cb).isNone
  let fed' := fed.modifyFederates fun h fs =>
    match fs.holdsBack cb with
    | none => fs
    | some msg => if h ∈ subscribers then { fs with tsoQueue := fs.tsoQueue.insert msg } else fs
  (fed', fanOut (fed.liveConnections c immediate) cb.body)

/-- Take the messages up to a time out of a federate's queue and deliver them. -/
def drainTsoUpTo (federate : FederateHandle) (upTo : ℚ) : Federation × List OutboundCallback :=
  match fed.federates.lookup federate with
  | none => (fed, [])
  | some fs =>
    let fed' := fed.modifyFederate federate fun fs => { fs with tsoQueue := fs.tsoQueue.drain upTo }
    (fed', (fs.tsoQueue.upTo upTo).flatMap fun msg =>
      fanOut (fed'.ownConnection c federate) msg.callback)

/-! ## Registration -/

/-- A registration: what it did, and the handle or the exception. -/
structure Registration where
  federation : Federation
  callbacks : List OutboundCallback
  result : Except ExceptionData ObjectInstanceHandle

/-- The class and the caller's record; the class must be defined and
published. -/
def registrationArgs (cls : WireField) :
    Except ExceptionData (ObjectClassHandle × FederateSession) := do
  let cls ← definedObjectClassArg fed cls
  let fs ← callerSession c fed
  require (cls ∈ fs.pubSub.publishedAttrs) HlaException.objectClassNotPublished.bare
  pure (cls, fs)

/-- Register an instance; the caller owns what it publishes of the class.  A
handle is drawn before the name is checked. -/
def registerObjectInstance (cls : WireField) (requestedName : Option String) : Registration :=
  match registrationArgs c fed cls with
  | .error e => ⟨fed, [], .error e⟩
  | .ok (cls, fs) =>
    let handle : ObjectInstanceHandle := ⟨fed.nextObjectId⟩
    let drawn := { fed with nextObjectId := fed.nextObjectId + 1 }
    let name := requestedName.getD ("HLA" ++ toString fed.nextObjectId)
    if requestedName.isSome ∧ ∃ i ∈ fed.objectInstances.values, i.name = name then
      ⟨drawn, [], .error (HlaException.objectInstanceNameInUse.because name)⟩
    else
      let owners : HashMap AttributeHandle FederateHandle :=
        (fs.pubSub.publishedAttrs.get cls).keys.foldl
          (fun owners attr => owners.insert attr c.federate) ∅
      let inst : ObjectInstance := ⟨handle, cls, name, c.federate, owners, ∅⟩
      let registered := { drawn with objectInstances := drawn.objectInstances.insert handle inst }
      let done := notifySubscribersOfRegistration c registered handle cls name c.federate
      ⟨done.1, done.2, .ok handle⟩

/-- Attach regions to the new instance. -/
def registerObjectInstanceWithRegions (cls : WireField) (requestedName : Option String)
    (pairs : WireRegionPairs) : Registration :=
  let r := registerObjectInstance c fed cls requestedName
  match r.result with
  | .error _ => r
  | .ok handle =>
    { r with federation := { r.federation with
        objectInstances := r.federation.objectInstances.modify handle fun inst =>
          { inst with attributeRegions := decodeAttrRegionPairs pairs } } }

/-- The response to a registration. -/
def Registration.outcome (r : Registration) (form : RegisterForm) : Outcome :=
  match r.result with
  | .ok handle => .reply r.federation (.registerObjectInstance form handle) r.callbacks
  | .error e => .reject r.federation e

/-! ## Updates -/

/-- The instance of an update, with the caller owning every attribute named. -/
def ownedInstance (inst : ObjectInstanceHandle) (attrs : List AttributeHandle) :
    Except ExceptionData ObjectInstance := do
  let i ← getOr (fed.objectInstances.lookup inst) HlaException.objectInstanceNotKnown.bare
  require (∀ attr ∈ attrs, i.attributeOwners.lookup attr = some c.federate)
    HlaException.attributeNotOwned.bare
  pure i

/-- Who receives an untimed update: the subscribers that match on at least one
of the updated attributes. -/
def updateRecipients (inst : ObjectInstanceHandle) (cls : ObjectClassHandle)
    (attrs : List AttributeHandle) : HashSet FederateHandle :=
  let subscribers := fed.subscribersForAttributes cls attrs (some c.federate)
  HashSet.ofList <| attrs.flatMap fun attr =>
    (filterSubscribersByRegions fed subscribers inst cls attr).keys

def updateAttributeValues (inst : WireField) (values : WireValueMap) (tag : Bytes) : Outcome :=
  .ofExcept fed do
    let inst ← getOr (inst.bind decodeObjectInstance)
      (HlaException.objectInstanceNotKnown.because "missing handle")
    let values ← decodeAttributeValueMap values
    let i ← ownedInstance c fed inst values.keys
    let matched := updateRecipients c fed inst i.cls values.keys
    let discovery := notifySubscribersOfRegistrationSubset c fed inst i.cls c.federate matched
    pure (.reply discovery.1 (.ack .updateAttributeValues)
      (discovery.2 ++ fanOut (discovery.1.liveConnections c matched)
        (.reflectAttributeValues inst values tag c.federate)))

/-- A regulating caller may not send below its promise. -/
def checkPromise (time : F64) : Except ExceptionData Unit :=
  match fed.federates.lookup c.federate with
  | none => .ok ()
  | some fs =>
    if fs.time.isRegulating = true ∧ time < Timestamp.toF64 fs.time.promise then
      .error ⟨.invalidLogicalTime, .timeBelow time fs.time.promise⟩
    else .ok ()

def updateAttributeValuesWithTime (inst : WireField) (values : WireValueMap) (tag : Bytes)
    (time : WireField) : Outcome :=
  .ofExcept fed do
    let inst ← getOr (inst.bind decodeObjectInstance) HlaException.objectInstanceNotKnown.bare
    let values ← decodeAttributeValueMap values
    let time ← decodeLogicalTime time ""
    let i ← ownedInstance c fed inst values.keys
    checkPromise c fed time
    let subscribers := fed.subscribersForAttributes i.cls values.keys (some c.federate)
    let discovery := notifySubscribersOfRegistrationSubset c fed inst i.cls c.federate subscribers
    let routed := routeTsoOrImmediate c discovery.1 subscribers
      ⟨time, .reflectAttributeValuesWithTime inst values tag c.federate time, rfl⟩
    pure (.reply routed.1 (.ack .updateAttributeValuesWithTime) (discovery.2 ++ routed.2))

/-! ## Interactions -/

/-- The class of an interaction the caller publishes, and its parameters. -/
def interactionArgs (cls : WireField) (params : WireValueMap) :
    Except ExceptionData (InteractionClassHandle × HashMap ParameterHandle Bytes) := do
  let cls ← definedInteractionClassArg fed cls
  let fs ← callerSession c fed
  require (cls ∈ fs.pubSub.publishedInteractions) HlaException.interactionClassNotPublished.bare
  let params ← decodeParameterValueMap params
  pure (cls, params)

def sendInteraction (cls : WireField) (params : WireValueMap) (tag : Bytes) : Outcome :=
  .ofExcept fed do
    let args ← interactionArgs c fed cls params
    let subscribers := fed.subscribersForInteraction args.1 (some c.federate)
    pure (.reply fed (.ack .sendInteraction)
      (fanOut (fed.liveConnections c subscribers)
        (.receiveInteraction args.1 args.2 tag c.federate)))

/-- The lookahead promise is not checked here. -/
def sendInteractionWithTime (cls : WireField) (params : WireValueMap) (tag : Bytes)
    (time : WireField) : Outcome :=
  .ofExcept fed do
    let args ← interactionArgs c fed cls params
    let time ← decodeLogicalTime time ""
    let subscribers := fed.subscribersForInteraction args.1 (some c.federate)
    let routed := routeTsoOrImmediate c fed subscribers
      ⟨time, .receiveInteractionWithTime args.1 args.2 tag c.federate time, rfl⟩
    pure (.reply routed.1 (.ack .sendInteractionWithTime) routed.2)

/-! ## Deletion -/

/-- The instance is the caller's to delete. -/
def checkDeletable (inst : ObjectInstanceHandle) : Except ExceptionData Unit := do
  let i ← getOr (fed.objectInstances.lookup inst) HlaException.objectInstanceNotKnown.bare
  require (i.registrar = c.federate) HlaException.deletePrivilegeNotHeld.bare

/-- The other federates that have discovered the instance. -/
def Federation.discoverers (inst : ObjectInstanceHandle) (deleter : FederateHandle) :
    HashSet FederateHandle :=
  HashSet.ofList <| fed.federates.keys.filter fun h =>
    match fed.federates.lookup h with
    | none => false
    | some fs => h ≠ deleter && decide (inst ∈ fs.pubSub.discoveredInstances)

/-- Remove the instance, and forget it for everybody but the deleter. -/
def Federation.removeInstance (inst : ObjectInstanceHandle) (deleter : FederateHandle) :
    Federation :=
  { fed.modifyFederates fun h fs =>
      if h = deleter then fs
      else { fs with pubSub := { fs.pubSub with
          discoveredInstances := fs.pubSub.discoveredInstances.erase inst } } with
    objectInstances := fed.objectInstances.erase inst }

def deleteObjectInstance (inst : WireField) (tag : Bytes) : Outcome :=
  .ofExcept fed do
    let inst ← getOr (inst.bind decodeObjectInstance) HlaException.objectInstanceNotKnown.bare
    checkDeletable c fed inst
    let fed' := fed.removeInstance inst c.federate
    pure (.reply fed' (.ack .deleteObjectInstance)
      (fanOut (fed'.liveConnections c (fed.discoverers inst c.federate))
        (.removeObjectInstance inst tag c.federate)))

/-- The lookahead promise is not checked here. -/
def deleteObjectInstanceWithTime (inst : WireField) (tag : Bytes) (time : WireField) : Outcome :=
  .ofExcept fed do
    let inst ← getOr (inst.bind decodeObjectInstance) HlaException.objectInstanceNotKnown.bare
    let time ← decodeLogicalTime time ""
    checkDeletable c fed inst
    let routed := routeTsoOrImmediate c (fed.removeInstance inst c.federate)
      (fed.discoverers inst c.federate)
      ⟨time, .removeObjectInstanceWithTime inst tag c.federate time, rfl⟩
    pure (.reply routed.1 (.ack .deleteObjectInstanceWithTime) routed.2)

/-- Forget an instance, for the caller only. -/
def localDeleteObjectInstance (inst : WireField) : Outcome :=
  .ofExcept fed do
    let inst ← getOr (inst.bind decodeObjectInstance) HlaException.objectInstanceNotKnown.bare
    let fed' := fed.modifyPubSub c.federate fun ps =>
      { ps with discoveredInstances := ps.discoveredInstances.erase inst }
    pure (.reply fed' (.ack .localDeleteObjectInstance) [])

/-- The object services.  Interactions with regions are sent without. -/
def serveObject : ObjectRequest → Outcome
  | .registerObjectInstance cls => (registerObjectInstance c fed cls none).outcome .plain
  | .registerObjectInstanceWithName cls name =>
    (registerObjectInstance c fed cls (some name)).outcome .withName
  | .registerObjectInstanceWithRegions cls pairs =>
    (registerObjectInstanceWithRegions c fed cls none pairs).outcome .withRegions
  | .registerObjectInstanceWithNameAndRegions cls name pairs =>
    (registerObjectInstanceWithRegions c fed cls (some name) pairs).outcome .withNameAndRegions
  | .updateAttributeValues inst values tag => updateAttributeValues c fed inst values tag
  | .updateAttributeValuesWithTime inst values tag time =>
    updateAttributeValuesWithTime c fed inst values tag time
  | .sendInteraction _ cls params tag => sendInteraction c fed cls params tag
  | .sendInteractionWithTime _ cls params tag time =>
    sendInteractionWithTime c fed cls params tag time
  | .deleteObjectInstance inst tag => deleteObjectInstance c fed inst tag
  | .deleteObjectInstanceWithTime inst tag time => deleteObjectInstanceWithTime c fed inst tag time
  | .localDeleteObjectInstance inst => localDeleteObjectInstance c fed inst

/-! ## What the handlers can change -/

variable {c fed} {inst : ObjectInstanceHandle} {cls : WireField} {name : Option String}
  {candidates subscribers : HashSet FederateHandle} {cb : TimedCallback}

theorem touches_discover :
    Federation.Touches [.federate .discovered] fed (fed.discover candidates inst) := by
  refine Federation.touches_modifyFederates [.discovered] ?_
  intro h fs q hq
  split
  · cases q <;> first | rfl | exact absurd (List.mem_singleton_self _) hq
  · rfl

theorem touches_removeInstance {deleter : FederateHandle} :
    Federation.Touches [.federate .discovered, .instances] fed
      (fed.removeInstance inst deleter) := by
  refine .trans (.mono ?_ (Federation.touches_modifyFederates [.discovered] ?_))
    (.mono ?_ Federation.touches_instances)
  · decide
  · intro h fs q hq
    split
    · rfl
    · cases q <;> first | rfl | exact absurd (List.mem_singleton_self _) hq
  · decide

theorem touches_route :
    Federation.Touches [.federate .queue] fed (routeTsoOrImmediate c fed subscribers cb).1 := by
  refine Federation.touches_modifyFederates [.queue] ?_
  intro h fs q hq
  split
  · rfl
  · split
    · cases q <;> first | rfl | exact absurd (List.mem_singleton_self _) hq
    · rfl

theorem touches_drain {federate : FederateHandle} {upTo : ℚ} :
    Federation.Touches [.federate .queue] fed (drainTsoUpTo c fed federate upTo).1 := by
  rw [drainTsoUpTo]
  split
  · exact .refl
  · refine Federation.touches_modifyFederate [.queue] ?_
    intro fs q hq
    cases q <;> first | rfl | exact absurd (List.mem_singleton_self _) hq

theorem touches_notifySubset {cls : ObjectClassHandle} {producer : FederateHandle} :
    Federation.Touches [.federate .discovered] fed
      (notifySubscribersOfRegistrationSubset c fed inst cls producer candidates).1 := by
  rw [notifySubscribersOfRegistrationSubset]
  split
  · exact .refl
  · exact touches_discover

theorem forall_notifySubset {kind : CallbackRequest → Prop} {cls : ObjectClassHandle}
    {producer : FederateHandle}
    (hk : ∀ name, kind (.discoverObjectInstance inst cls name producer)) :
    ∀ cb ∈ (notifySubscribersOfRegistrationSubset c fed inst cls producer candidates).2,
      kind cb.body := by
  rw [notifySubscribersOfRegistrationSubset]
  split
  · intro cb hcb
    cases hcb
  · exact forall_fanOut (hk _)

/-- The parts an untimed object service may change. -/
def objectParts : List Part := [.counters, .instances, .federate .discovered]

theorem registerObjectInstance_touches :
    Federation.Touches objectParts fed (registerObjectInstance c fed cls name).federation := by
  rw [registerObjectInstance]
  split
  · exact .refl
  · dsimp only
    have hdrawn : Federation.Touches objectParts fed
        { fed with nextObjectId := fed.nextObjectId + 1 } :=
      Federation.touches_counters.mono (by decide)
    split
    · exact hdrawn
    · exact (hdrawn.trans (Federation.touches_instances.mono (by decide))).trans
        (touches_discover.mono (by decide))

/-- About a topic, and without a timestamp. -/
def CallbackRequest.UntimedOn (t : CallbackTopic) (body : CallbackRequest) : Prop :=
  body.Untimed ∧ body.On t

theorem registerObjectInstance_untimed :
    ∀ cb ∈ (registerObjectInstance c fed cls name).callbacks, cb.body.UntimedOn .object := by
  rw [registerObjectInstance]
  split
  · intro cb hcb
    cases hcb
  · dsimp only
    split
    · intro cb hcb
      cases hcb
    · exact forall_fanOut (show CallbackRequest.UntimedOn .object _ from ⟨trivial, rfl⟩)

theorem registerObjectInstance_confined {form : RegisterForm} :
    ((registerObjectInstance c fed cls name).outcome form).Confined objectParts
      (CallbackRequest.UntimedOn .object) fed := by
  rw [Registration.outcome]
  split
  · exact .reply registerObjectInstance_touches registerObjectInstance_untimed
  · exact .reject registerObjectInstance_touches

theorem registerObjectInstanceWithRegions_confined {pairs : WireRegionPairs} {form : RegisterForm} :
    ((registerObjectInstanceWithRegions c fed cls name pairs).outcome form).Confined objectParts
      (CallbackRequest.UntimedOn .object) fed := by
  cases hr : (registerObjectInstance c fed cls name).result with
  | error =>
    simp only [registerObjectInstanceWithRegions, hr, Registration.outcome]
    exact .reject registerObjectInstance_touches
  | ok =>
    simp only [registerObjectInstanceWithRegions, hr, Registration.outcome]
    exact .reply (registerObjectInstance_touches.trans
      (Federation.touches_instances.mono (by decide))) registerObjectInstance_untimed

/-- The services that send a timestamped message. -/
def ObjectRequest.timed : ObjectRequest → Bool
  | updateAttributeValuesWithTime .. => true
  | sendInteractionWithTime .. => true
  | deleteObjectInstanceWithTime .. => true
  | _ => false

/-- What the callbacks of an object service are about. -/
def ObjectRequest.topic : ObjectRequest → CallbackTopic
  | sendInteraction .. => .interaction
  | sendInteractionWithTime .. => .interaction
  | _ => .object

theorem serveObject_untimed {r : ObjectRequest} (hr : r.timed = false) :
    (serveObject c fed r).Confined objectParts (CallbackRequest.UntimedOn r.topic) fed := by
  cases r with
  | registerObjectInstance | registerObjectInstanceWithName => exact registerObjectInstance_confined
  | registerObjectInstanceWithRegions | registerObjectInstanceWithNameAndRegions =>
    exact registerObjectInstanceWithRegions_confined
  | updateAttributeValues =>
    exact .ofExcept (.bind fun _ _ => .bind fun _ _ => .bind fun _ _ =>
      .pure (.reply (touches_notifySubset.mono (by decide))
        (forall_append (forall_notifySubset fun _ => ⟨trivial, rfl⟩)
          (forall_fanOut ⟨trivial, rfl⟩))))
  | updateAttributeValuesWithTime => cases hr
  | sendInteractionWithTime => cases hr
  | deleteObjectInstanceWithTime => cases hr
  | sendInteraction =>
    exact .ofExcept (.bind fun _ _ => .pure (.reply .refl (forall_fanOut ⟨trivial, rfl⟩)))
  | deleteObjectInstance =>
    exact .ofExcept (.bind fun _ _ => .bind fun _ _ =>
      .pure (.reply (touches_removeInstance.mono (by decide))
        (forall_fanOut ⟨trivial, rfl⟩)))
  | localDeleteObjectInstance =>
    refine .ofExcept (.bind fun _ _ => .pure (.silent ?_))
    refine Federation.Touches.mono ?_ (touches_modifyPubSub [.discovered] ?_)
    · decide
    · intro fs q hq
      cases q <;> first | rfl | exact absurd (List.mem_singleton_self _) hq

theorem serveObject_on (r : ObjectRequest) :
    (serveObject c fed r).Confined (.federate .queue :: objectParts) (CallbackRequest.On r.topic)
      fed := by
  cases hr : r.timed with
  | false =>
    exact ((serveObject_untimed hr).mono (List.subset_cons_self _ _)).weaken
      fun _ h => h.2
  | true =>
    cases r with
    | updateAttributeValuesWithTime =>
      exact .ofExcept (.bind fun _ _ => .bind fun _ _ => .bind fun _ _ => .bind fun _ _ =>
        .bind fun _ _ => .pure (.reply
          ((touches_notifySubset.mono (by decide)).trans (touches_route.mono (by decide)))
          (forall_append (forall_notifySubset fun _ => rfl) (forall_fanOut rfl))))
    | sendInteractionWithTime =>
      exact .ofExcept (.bind fun _ _ => .bind fun _ _ =>
        .pure (.reply (touches_route.mono (by decide)) (forall_fanOut rfl)))
    | deleteObjectInstanceWithTime =>
      exact .ofExcept (.bind fun _ _ => .bind fun _ _ => .bind fun _ _ =>
        .pure (.reply
          ((touches_removeInstance.mono (by decide)).trans (touches_route.mono (by decide)))
          (forall_fanOut rfl)))
    | _ => cases hr

theorem serveObject_confined (r : ObjectRequest) :
    (serveObject c fed r).Confined (.federate .queue :: objectParts) CallbackRequest.Data fed := by
  refine (serveObject_on r).weaken fun body h => ?_
  cases r <;> first | exact .inl h | exact .inr h

/-- The services that register an instance. -/
def ObjectRequest.registers : ObjectRequest → Bool
  | registerObjectInstance .. => true
  | registerObjectInstanceWithName .. => true
  | registerObjectInstanceWithRegions .. => true
  | registerObjectInstanceWithNameAndRegions .. => true
  | _ => false

/-- The other services leave the instances alone or remove one: what holds of
every such outcome holds of theirs. -/
theorem serveObject_unregistered {Q : Outcome → Prop}
    (same : ∀ o : Outcome, o.federation.objectInstances = fed.objectInstances → Q o)
    (removes : ∀ (fed' : Federation) (ack : Ack) (callbacks : List OutboundCallback)
      (inst : ObjectInstanceHandle), fed'.objectInstances = fed.objectInstances.erase inst →
      Q (.reply fed' (.ack ack) callbacks))
    {r : ObjectRequest} (hr : r.registers = false) : Q (serveObject c fed r) := by
  have checked : ∀ {x : Except ExceptionData Outcome}, Yields x Q → Q (Outcome.ofExcept fed x) :=
    Outcome.ofExcept_of fun _ => same _ rfl
  have untouched : ∀ {ps : List Part} {fed' : Federation}, fed.Touches ps fed' →
      Part.instances ∉ ps → fed'.objectInstances = fed.objectInstances :=
    fun ht hp => ht .instances hp
  cases r with
  | updateAttributeValues =>
    exact checked (.bind fun _ _ => .bind fun _ _ => .bind fun _ _ =>
      .pure (same _ (untouched touches_notifySubset (by decide))))
  | updateAttributeValuesWithTime =>
    refine checked (.bind fun _ _ => .bind fun _ _ => .bind fun _ _ => .bind fun _ _ =>
      .bind fun _ _ => .pure (same _ (untouched (show Federation.Touches
        [.federate .discovered, .federate .queue] fed _ from ?_) (by decide))))
    exact (touches_notifySubset.mono (by decide)).trans
      ((touches_route (c := c)).mono (by decide))
  | sendInteraction | localDeleteObjectInstance =>
    exact checked (.bind fun _ _ => .pure (same _ rfl))
  | sendInteractionWithTime =>
    exact checked (.bind fun _ _ => .bind fun _ _ =>
      .pure (same _ (untouched (touches_route (c := c)) (by decide))))
  | deleteObjectInstance =>
    exact checked (.bind fun _ _ => .bind fun _ _ => .pure (removes _ _ _ _ rfl))
  | deleteObjectInstanceWithTime =>
    exact checked (.bind fun _ _ => .bind fun _ _ => .bind fun _ _ =>
      .pure (removes _ _ _ _ (touches_route (c := c) .instances (by decide))))
  | _ => cases hr

/-! ## What gets into a queue -/

theorem holdsBack_eq_some {fs : FederateSession} {msg : TsoMessage} :
    fs.holdsBack cb = some msg ↔ fs.time.isConstrained = true ∧
      (fs.time.currentTime : Timestamp) < msg.time ∧ msg.callback = cb.body := by
  rw [FederateSession.holdsBack]
  split
  · next h =>
      rw [Option.map_eq_some_iff]
      constructor
      · rintro ⟨t, ht, rfl⟩
        exact ⟨h, F64.above_eq_some.mp ht, rfl⟩
      · rintro ⟨_, hlt, hbody⟩
        obtain ⟨t, body, stamped⟩ := msg
        cases hbody
        have ht : cb.time = t.toF64 := Option.some.inj (cb.stamped.symm.trans stamped)
        exact ⟨⟨t, ht⟩, F64.above_eq_some.mpr hlt, rfl⟩
  · next h => exact ⟨fun ht => (nomatch ht), fun ht => absurd ht.1 h⟩

theorem holdsBack_eq_none {fs : FederateSession} :
    fs.holdsBack cb = none ↔
      (fs.time.isConstrained = true → ¬ F64.fin fs.time.currentTime < cb.time) := by
  rw [FederateSession.holdsBack]
  split
  · next h =>
      rw [Option.map_eq_none_iff, F64.above_eq_none]
      exact ⟨fun hlt _ => hlt, fun hlt => hlt h⟩
  · next h => exact ⟨fun _ hcon => absurd hcon h, fun _ => rfl⟩

theorem lookup_route {h : FederateHandle} :
    (routeTsoOrImmediate c fed subscribers cb).1.federates.lookup h =
      (fed.federates.lookup h).map fun fs =>
        match fs.holdsBack cb with
        | none => fs
        | some msg =>
          if h ∈ subscribers then { fs with tsoQueue := fs.tsoQueue.insert msg } else fs :=
  HashMap.lookup_mapValues _ _ _

theorem queue_route {h : FederateHandle} :
    (routeTsoOrImmediate c fed subscribers cb).1.queue h = (fed.federates.lookup h).map fun fs =>
        (fs.holdsBack cb).elim fs.tsoQueue fun msg =>
          if h ∈ subscribers then fs.tsoQueue.insert msg else fs.tsoQueue := by
  rw [Federation.queue, lookup_route, Option.map_map]
  refine Option.map_congr fun fs _ => ?_
  dsimp only [Function.comp]
  cases fs.holdsBack cb with
  | none => rfl
  | some => dsimp only [Option.elim]; split <;> rfl

theorem bodiesFor_route {h : FederateHandle} :
    bodiesFor h (routeTsoOrImmediate c fed subscribers cb).2 =
      if (h ∈ subscribers ∧ ∃ fs, fed.federates.lookup h = some fs ∧ fs.holdsBack cb = none) ∧
        (fed.recipient c h).isSome = true then [cb.body] else [] := by
  refine Federation.bodiesFor_live.trans (if_congr (and_congr_left fun _ => ?_) rfl rfl)
  rw [HashSet.mem_filter]
  cases fed.federates.lookup h with
  | none => simp
  | some => simp [Option.isNone_iff_eq_none]

/-- From `fed` to `fed'` queues only gain messages that are ahead of a
constrained receiver. -/
def Federation.QueuesGain (fed fed' : Federation) : Prop :=
  ∀ h fs', fed'.federates.lookup h = some fs' →
    ∃ fs, fed.federates.lookup h = some fs ∧ fs'.time = fs.time ∧
      ∀ m ∈ fs'.tsoQueue.messages, m ∈ fs.tsoQueue.messages ∨
        (fs.time.isConstrained = true ∧ (fs.time.currentTime : Timestamp) < m.time)

theorem Federation.QueuesGain.of_touches {ps : List Part} {fed' : Federation}
    (h : Federation.Touches ps fed fed') (ht : Part.federate .time ∉ ps)
    (hq : Part.federate .queue ∉ ps) : fed.QueuesGain fed' := by
  intro k fs' hfs'
  have htime := h.federate ht k
  have hqueue := h.federate hq k
  rw [hfs', Option.map_some, eq_comm, Option.map_eq_some_iff] at htime hqueue
  obtain ⟨fs, hfs, htime⟩ := htime
  obtain ⟨fs₂, hfs₂, hqueue⟩ := hqueue
  cases hfs.symm.trans hfs₂
  refine ⟨fs, hfs, htime.symm, ?_⟩
  intro m hm
  left
  show m ∈ (FederatePart.queue.get fs).messages
  rw [hqueue]
  exact hm

theorem Federation.QueuesGain.trans_touches {ps : List Part} {fed' fed'' : Federation}
    (h : Federation.Touches ps fed fed') (ht : Part.federate .time ∉ ps)
    (hq : Part.federate .queue ∉ ps) (h' : fed'.QueuesGain fed'') : fed.QueuesGain fed'' := by
  intro k fs'' hfs''
  obtain ⟨fs', hfs', htime', hm'⟩ := h' k fs'' hfs''
  obtain ⟨fs, hfs, htime, hm⟩ := Federation.QueuesGain.of_touches h ht hq k fs' hfs'
  refine ⟨fs, hfs, htime'.trans htime, ?_⟩
  intro m hmem
  rcases hm' m hmem with hold | hnew
  · exact hm m hold
  · exact .inr (htime ▸ hnew)

theorem queuesGain_route :
    fed.QueuesGain (routeTsoOrImmediate c fed subscribers cb).1 := by
  intro h fs' hfs'
  rw [lookup_route, Option.map_eq_some_iff] at hfs'
  obtain ⟨fs, hfs, rfl⟩ := hfs'
  refine ⟨fs, hfs, ?_⟩
  cases hb : fs.holdsBack cb with
  | none => exact ⟨rfl, fun m hm => .inl hm⟩
  | some =>
    dsimp only
    split
    · refine ⟨rfl, ?_⟩
      intro m hm
      rcases SortedQueue.mem_insert.mp hm with rfl | hm
      · obtain ⟨hcon, hlt, _⟩ := holdsBack_eq_some.mp hb
        exact .inr ⟨hcon, hlt⟩
      · exact .inl hm
    · exact ⟨rfl, fun m hm => .inl hm⟩

theorem serveObject_queue (r : ObjectRequest) : fed.QueuesGain (serveObject c fed r).federation := by
  have same : fed.QueuesGain fed :=
    .of_touches (show Federation.Touches [] fed fed from .refl) List.not_mem_nil List.not_mem_nil
  cases hr : r.timed with
  | false =>
    exact .of_touches (serveObject_untimed hr).touches (by decide) (by decide)
  | true =>
    cases r with
    | updateAttributeValuesWithTime =>
      refine Outcome.ofExcept_of (Q := fun o => fed.QueuesGain o.federation) (fun _ => same) ?_
      refine .bind fun _ _ => .bind fun _ _ => .bind fun _ _ => .bind fun _ _ =>
        .bind fun _ _ => .pure ?_
      exact .trans_touches touches_notifySubset (by decide) (by decide) (queuesGain_route (c := c))
    | sendInteractionWithTime =>
      exact Outcome.ofExcept_of (Q := fun o => fed.QueuesGain o.federation) (fun _ => same)
        (.bind fun _ _ => .bind fun _ _ => .pure (queuesGain_route (c := c)))
    | deleteObjectInstanceWithTime =>
      refine Outcome.ofExcept_of (Q := fun o => fed.QueuesGain o.federation) (fun _ => same) ?_
      refine .bind fun _ _ => .bind fun _ _ => .bind fun _ _ => .pure ?_
      exact .trans_touches touches_removeInstance (by decide) (by decide) (queuesGain_route (c := c))
    | _ => cases hr

end Hla4
