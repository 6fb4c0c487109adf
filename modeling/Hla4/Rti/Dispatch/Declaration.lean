/-
# `Hla4.Rti.Dispatch.Declaration` — publishing and subscribing

Handlers of `declaration.rs`, `directed.rs`, `advisories.rs` and the two
whole-class services of `mod.rs`.  A declaration is recorded twice: in the
caller's own record, and (subscriptions only) in the federation's matrix.

`unsubscribeObjectClass` is the one handler that does not work on the caller's
entries alone: it removes the class from the matrix for EVERY federate.

    serveDeclaration_confined   what the group can change
    serveDirected_confined
    serveSwitch_confined
-/
import Hla4.Rti.Request
import Hla4.Rti.Routing

namespace Hla4

open Lib

variable (c : Caller) (fed : Federation)

/-! ## Advisories -/

/-- The four `emit_…` functions: tell every federate the advisory concerns. -/
def emitAdvisory (concerns : FederateSession → Bool) (body : CallbackRequest) :
    List OutboundCallback :=
  let targets := HashSet.ofList ((fed.federates.values.filter concerns).map (·.handle))
  fanOut (fed.liveConnections c targets) body

def emitStartRegistration (cls : ObjectClassHandle) (exclude : FederateHandle) :
    List OutboundCallback :=
  emitAdvisory c fed (fun fs => fs.handle ≠ exclude && fs.switches.objectClassRelevanceAdvisory &&
    decide (cls ∈ fs.pubSub.publishedAttrs)) (.startRegistrationForObjectClass cls)

def emitStopRegistration (cls : ObjectClassHandle) : List OutboundCallback :=
  emitAdvisory c fed (fun fs => fs.switches.objectClassRelevanceAdvisory &&
    decide (cls ∈ fs.pubSub.publishedAttrs)) (.stopRegistrationForObjectClass cls)

def emitTurnInteractionsOn (cls : InteractionClassHandle) (exclude : FederateHandle) :
    List OutboundCallback :=
  emitAdvisory c fed (fun fs => fs.handle ≠ exclude && fs.switches.interactionRelevanceAdvisory &&
    decide (cls ∈ fs.pubSub.publishedInteractions)) (.turnInteractionsOn cls)

def emitTurnInteractionsOff (cls : InteractionClassHandle) : List OutboundCallback :=
  emitAdvisory c fed (fun fs => fs.switches.interactionRelevanceAdvisory &&
    decide (cls ∈ fs.pubSub.publishedInteractions)) (.turnInteractionsOff cls)

def interactionHasSubscribers (cls : InteractionClassHandle) : Bool :=
  decide (cls ∈ fed.subscriptions.byInteraction)

/-! ## Recording a declaration -/

/-- Update the caller's publications and subscriptions. -/
def Federation.modifyPubSub (h : FederateHandle) (f : PubSubState → PubSubState) : Federation :=
  fed.modifyFederate h fun fs => { fs with pubSub := f fs.pubSub }

/-- Subscribe a federate to attributes of a class, in the matrix. -/
def SubscriptionMatrix.subscribeAll (m : SubscriptionMatrix) (cls : ObjectClassHandle)
    (attrs : List AttributeHandle) (f : FederateHandle) : SubscriptionMatrix :=
  attrs.foldl (fun m attr => (m.subscribeAttribute cls attr f).1) m

/-- Unsubscribe a federate from attributes of a class, in the matrix. -/
def SubscriptionMatrix.unsubscribeAll (m : SubscriptionMatrix) (cls : ObjectClassHandle)
    (attrs : List AttributeHandle) (f : FederateHandle) : SubscriptionMatrix :=
  attrs.foldl (fun m attr => (m.unsubscribeAttribute cls attr f).1) m

/-- Replace what a federate's own record and the matrix say of subscriptions. -/
def Federation.resubscribe (h : FederateHandle)
    (attrs : MultiMap ObjectClassHandle AttributeHandle → MultiMap ObjectClassHandle AttributeHandle)
    (interactions : HashSet InteractionClassHandle → HashSet InteractionClassHandle)
    (matrix : SubscriptionMatrix) : Federation :=
  { fed.modifyPubSub h fun ps =>
      { ps with
        subscribedAttrs := attrs ps.subscribedAttrs
        subscribedInteractions := interactions ps.subscribedInteractions } with
    subscriptions := matrix }

/-- Record attribute subscriptions in both places. -/
def Federation.recordSubscription (h : FederateHandle) (cls : ObjectClassHandle)
    (attrs : List AttributeHandle) : Federation :=
  fed.resubscribe h (·.add cls attrs) id (fed.subscriptions.subscribeAll cls attrs h)

/-- Withdraw attribute subscriptions in both places. -/
def Federation.withdrawSubscription (h : FederateHandle) (cls : ObjectClassHandle)
    (attrs : List AttributeHandle) : Federation :=
  fed.resubscribe h (·.remove cls attrs) id (fed.subscriptions.unsubscribeAll cls attrs h)

/-- Withdraw a whole class: the caller's record, and the class in the matrix. -/
def Federation.withdrawClass (h : FederateHandle) (cls : ObjectClassHandle) : Federation :=
  fed.resubscribe h (·.erase cls) id (fed.subscriptions.removeClass cls)

/-- Record an interaction subscription in both places. -/
def Federation.recordInteraction (h : FederateHandle) (cls : InteractionClassHandle) : Federation :=
  fed.resubscribe h id (·.insert cls)
    { fed.subscriptions with byInteraction := fed.subscriptions.byInteraction.add cls [h] }

/-- Withdraw an interaction subscription in both places. -/
def Federation.withdrawInteraction (h : FederateHandle) (cls : InteractionClassHandle) :
    Federation :=
  fed.resubscribe h id (·.erase cls)
    { fed.subscriptions with byInteraction := fed.subscriptions.byInteraction.remove cls [h] }

/-! ## Handlers -/

/-- The object class of a request that may name an undefined one. -/
def objectClassArg (cls : WireField) : Except ExceptionData ObjectClassHandle :=
  getOr (cls.bind decodeObjectClass) HlaException.invalidObjectClassHandle.bare

/-- The object class of a request that must name a defined one. -/
def definedObjectClassArg (cls : WireField) : Except ExceptionData ObjectClassHandle := do
  let cls ← objectClassArg cls
  require ((fed.fom.objectClassDef cls).isSome = true) HlaException.objectClassNotDefined.bare
  pure cls

/-- `decode_interaction_or_err` -/
def decodeInteractionOrErr (cls : WireField) : Except ExceptionData InteractionClassHandle :=
  getOr (cls.bind decodeInteractionClass) HlaException.invalidInteractionClassHandle.bare

/-- The interaction class of a request that must name a defined one. -/
def definedInteractionClassArg (cls : WireField) :
    Except ExceptionData InteractionClassHandle := do
  let cls ← decodeInteractionOrErr cls
  require ((fed.fom.interactionClassDef cls).isSome = true)
    HlaException.interactionClassNotDefined.bare
  pure cls

def publishObjectClassAttributes (cls : WireField) (attrs : WireSet) : Outcome :=
  .ofExcept fed do
    let cls ← definedObjectClassArg fed cls
    let set ← decodeHandleSet attrs
    let fed' := fed.modifyPubSub c.federate fun ps =>
      { ps with publishedAttrs := ps.publishedAttrs.add cls set.keys }
    pure (.reply fed' (.ack .publishObjectClassAttributes) [])

def unpublishObjectClassAttributes (cls : WireField) (attrs : WireSet) : Outcome :=
  .ofExcept fed do
    let cls ← objectClassArg cls
    let set ← decodeHandleSet attrs
    let fed' := fed.modifyPubSub c.federate fun ps =>
      { ps with publishedAttrs := ps.publishedAttrs.remove cls set.keys }
    pure (.reply fed' (.ack .unpublishObjectClassAttributes) [])

/-- `subscribe_object_class_attributes_inner` -/
def subscribeObjectClassAttributes (cls : WireField) (attrs : WireSet) : Outcome :=
  .ofExcept fed do
    let cls ← definedObjectClassArg fed cls
    let set ← decodeHandleSet attrs
    let fed' := fed.recordSubscription c.federate cls set.keys
    let first := !fed.subscriptions.classHasSubscribers cls &&
      fed'.subscriptions.classHasSubscribers cls
    pure (.reply fed' (.ack .subscribeObjectClassAttributes)
      (if first then emitStartRegistration c fed' cls c.federate else []))

/-- `unsubscribe_object_class_attributes_inner` -/
def unsubscribeObjectClassAttributes (cls : WireField) (attrs : WireSet) : Outcome :=
  .ofExcept fed do
    let cls ← objectClassArg cls
    let set ← decodeHandleSet attrs
    let fed' := fed.withdrawSubscription c.federate cls set.keys
    let last := fed.subscriptions.classHasSubscribers cls &&
      !fed'.subscriptions.classHasSubscribers cls
    pure (.reply fed' (.ack .unsubscribeObjectClassAttributes)
      (if last then emitStopRegistration c fed' cls else []))

def publishInteractionClass (cls : WireField) : Outcome :=
  .ofExcept fed do
    let cls ← definedInteractionClassArg fed cls
    let fed' := fed.modifyPubSub c.federate fun ps =>
      { ps with publishedInteractions := ps.publishedInteractions.insert cls }
    pure (.reply fed' (.ack .publishInteractionClass) [])

def unpublishInteractionClass (cls : WireField) : Outcome :=
  .ofExcept fed do
    let cls ← decodeInteractionOrErr cls
    let fed' := fed.modifyPubSub c.federate fun ps =>
      { ps with publishedInteractions := ps.publishedInteractions.erase cls }
    pure (.reply fed' (.ack .unpublishInteractionClass) [])

/-- `subscribe_interaction_class_inner` -/
def subscribeInteractionClass (cls : WireField) : Outcome :=
  .ofExcept fed do
    let cls ← definedInteractionClassArg fed cls
    let fed' := fed.recordInteraction c.federate cls
    let first := !interactionHasSubscribers fed cls && interactionHasSubscribers fed' cls
    pure (.reply fed' (.ack .subscribeInteractionClass)
      (if first then emitTurnInteractionsOn c fed' cls c.federate else []))

/-- `unsubscribe_interaction_class_inner` -/
def unsubscribeInteractionClass (cls : WireField) : Outcome :=
  .ofExcept fed do
    let cls ← decodeInteractionOrErr cls
    let fed' := fed.withdrawInteraction c.federate cls
    let last := interactionHasSubscribers fed cls && !interactionHasSubscribers fed' cls
    pure (.reply fed' (.ack .unsubscribeInteractionClass)
      (if last then emitTurnInteractionsOff c fed' cls else []))

def unpublishObjectClass (cls : WireField) : Outcome :=
  .ofExcept fed do
    let cls ← objectClassArg cls
    let fed' := fed.modifyPubSub c.federate fun ps =>
      { ps with publishedAttrs := ps.publishedAttrs.erase cls }
    pure (.reply fed' (.ack .unpublishObjectClass) [])

def unsubscribeObjectClass (cls : WireField) : Outcome :=
  .ofExcept fed do
    let cls ← objectClassArg cls
    pure (.reply (fed.withdrawClass c.federate cls) (.ack .unsubscribeObjectClass) [])

/-- The declaration services. -/
def serveDeclaration : DeclarationRequest → Outcome
  | .publishObjectClassAttributes cls attrs => publishObjectClassAttributes c fed cls attrs
  | .unpublishObjectClassAttributes cls attrs => unpublishObjectClassAttributes c fed cls attrs
  | .subscribeObjectClassAttributes _ cls attrs => subscribeObjectClassAttributes c fed cls attrs
  | .unsubscribeObjectClassAttributes cls attrs =>
    unsubscribeObjectClassAttributes c fed cls attrs
  | .publishInteractionClass cls => publishInteractionClass c fed cls
  | .unpublishInteractionClass cls => unpublishInteractionClass c fed cls
  | .subscribeInteractionClass _ cls => subscribeInteractionClass c fed cls
  | .unsubscribeInteractionClass cls => unsubscribeInteractionClass c fed cls
  | .unpublishObjectClass cls => unpublishObjectClass c fed cls
  | .unsubscribeObjectClass cls => unsubscribeObjectClass c fed cls

/-! ## Directed interactions -/

def publishObjectClassDirectedInteractions (cls : WireField) (interactions : WireSet) : Outcome :=
  .ofExcept fed do
    let cls ← objectClassArg cls
    let fed' := fed.modifyPubSub c.federate fun ps =>
      { ps with publishedDirectedInteractions :=
          ps.publishedDirectedInteractions.add cls (decodeInteractionClassSet interactions) }
    pure (.reply fed' (.ack .publishObjectClassDirectedInteractions) [])

/-- Remove the listed interactions of a class, or the class when no list is
given. -/
def withdrawDirected (m : MultiMap ObjectClassHandle InteractionClassHandle)
    (cls : ObjectClassHandle) : WireSet → MultiMap ObjectClassHandle InteractionClassHandle
  | some set => m.remove cls (decodeInteractionClassSet (some set))
  | none => m.erase cls

def unpublishObjectClassDirectedInteractions (cls : WireField) (interactions : WireSet) : Outcome :=
  .ofExcept fed do
    let cls ← objectClassArg cls
    let fed' := fed.modifyPubSub c.federate fun ps =>
      { ps with publishedDirectedInteractions :=
          withdrawDirected ps.publishedDirectedInteractions cls interactions }
    pure (.reply fed' (.ack .unpublishObjectClassDirectedInteractions) [])

def subscribeObjectClassDirectedInteractions (cls : WireField) (interactions : WireSet) : Outcome :=
  .ofExcept fed do
    let cls ← objectClassArg cls
    let fed' := fed.modifyPubSub c.federate fun ps =>
      { ps with subscribedDirectedInteractions :=
          ps.subscribedDirectedInteractions.add cls (decodeInteractionClassSet interactions) }
    pure (.reply fed' (.ack .subscribeObjectClassDirectedInteractions) [])

def unsubscribeObjectClassDirectedInteractions (cls : WireField) (interactions : WireSet) :
    Outcome :=
  .ofExcept fed do
    let cls ← objectClassArg cls
    let fed' := fed.modifyPubSub c.federate fun ps =>
      { ps with subscribedDirectedInteractions :=
          withdrawDirected ps.subscribedDirectedInteractions cls interactions }
    pure (.reply fed' (.ack .unsubscribeObjectClassDirectedInteractions) [])

/-- Delivered to the registrar of the instance and to the federates subscribed
to the pair of classes; that the sender publishes it is not checked. -/
def sendDirectedInteraction (cls inst : WireField) (params : WireValueMap) (tag : Bytes) :
    Outcome :=
  .ofExcept fed do
    let cls ← decodeInteractionOrErr cls
    let inst ← getOr (inst.bind decodeObjectInstance) HlaException.objectInstanceNotKnown.bare
    let params ← decodeParameterValueMap params
    let target ← getOr (fed.objectInstances.lookup inst) HlaException.objectInstanceNotKnown.bare
    let registrar := if target.registrar ≠ c.federate then [target.registrar] else []
    let subscribed := fed.federates.values.filter fun fs =>
      fs.handle ≠ c.federate && decide (cls ∈ fs.pubSub.subscribedDirectedInteractions.get target.cls)
    let targets := HashSet.ofList (registrar ++ subscribed.map (·.handle))
    pure (.reply fed (.ack .sendDirectedInteraction)
      (fanOut (fed.liveConnections c targets)
        (.receiveDirectedInteraction cls inst params tag c.federate)))

def serveDirected : DirectedRequest → Outcome
  | .publishObjectClassDirectedInteractions cls ix =>
    publishObjectClassDirectedInteractions c fed cls ix
  | .unpublishObjectClassDirectedInteractions cls =>
    unpublishObjectClassDirectedInteractions c fed cls none
  | .unpublishObjectClassDirectedInteractionsWithSet cls ix =>
    unpublishObjectClassDirectedInteractions c fed cls ix
  | .subscribeObjectClassDirectedInteractions cls ix =>
    subscribeObjectClassDirectedInteractions c fed cls ix
  | .subscribeObjectClassDirectedInteractionsUniversally cls ix =>
    subscribeObjectClassDirectedInteractions c fed cls ix
  | .unsubscribeObjectClassDirectedInteractions cls =>
    unsubscribeObjectClassDirectedInteractions c fed cls none
  | .unsubscribeObjectClassDirectedInteractionsWithSet cls ix =>
    unsubscribeObjectClassDirectedInteractions c fed cls ix
  | .sendDirectedInteraction cls inst params tag =>
    sendDirectedInteraction c fed cls inst params tag

/-! ## Switches -/

def Switches.set (s : Switches) (value : Bool) : AdvisorySwitch → Switches
  | .objectClassRelevanceAdvisory => { s with objectClassRelevanceAdvisory := value }
  | .attributeRelevanceAdvisory => { s with attributeRelevanceAdvisory := value }
  | .attributeScopeAdvisory => { s with attributeScopeAdvisory := value }
  | .interactionRelevanceAdvisory => { s with interactionRelevanceAdvisory := value }
  | .conveyRegionDesignatorSets => { s with conveyRegionDesignatorSets := value }
  | .serviceReporting => { s with serviceReporting := value }
  | .exceptionReporting => { s with exceptionReporting := value }
  | .sendServiceReportsToFile => { s with sendServiceReportsToFile := value }

/-- The caller's record. -/
def callerSession : Except ExceptionData FederateSession :=
  getOr (fed.federates.lookup c.federate) HlaException.federateNotExecutionMember.bare

/-- `set_switch_bool` -/
def setSwitchBool (s : AdvisorySwitch) (value : Bool) : Outcome :=
  .ofExcept fed do
    let _ ← callerSession c fed
    let fed' := fed.modifyFederate c.federate fun fs =>
      { fs with switches := fs.switches.set value s }
    pure (.reply fed' (.ack (.setSwitch s)) [])

def decodeResignAction (value : Int32) : Option ResignAction :=
  if value = 0 then some .unconditionallyDivestAttributes
  else if value = 1 then some .deleteObjects
  else if value = 2 then some .cancelPendingOwnershipAcquisitions
  else if value = 3 then some .deleteObjectsThenDivest
  else if value = 4 then some .cancelThenDeleteThenDivest
  else if value = 5 then some .noAction
  else none

def setAutomaticResignDirective (value : Int32) : Outcome :=
  .ofExcept fed do
    let action ← getOr (decodeResignAction value)
      (HlaException.invalidResignAction.because (toString value))
    let _ ← callerSession c fed
    let fed' := fed.modifyFederate c.federate fun fs =>
      { fs with switches := { fs.switches with automaticResignDirective := action } }
    pure (.reply fed' (.ack .setAutomaticResignDirective) [])

def serveSwitch : SwitchRequest → Outcome
  | .setSwitch s value => setSwitchBool c fed s value
  | .setAutomaticResignDirective value => setAutomaticResignDirective c fed value

/-! ## What the handlers can change -/

variable {c fed} {h : FederateHandle} {f : PubSubState → PubSubState}

theorem touches_modifyPubSub (ps : List FederatePart)
    (hf : ∀ fs q, q ∉ ps → q.get { fs with pubSub := f fs.pubSub } = q.get fs) :
    Federation.Touches (ps.map .federate) fed (fed.modifyPubSub h f) :=
  Federation.touches_modifyFederate ps hf

theorem forall_emitAdvisory {kind : CallbackRequest → Prop} {concerns : FederateSession → Bool}
    {body : CallbackRequest} (h : kind body) :
    ∀ cb ∈ emitAdvisory c fed concerns body, kind cb.body :=
  forall_fanOut h

theorem forall_ite {kind : CallbackRequest → Prop} {b : Bool} {l : List OutboundCallback}
    (h : ∀ cb ∈ l, kind cb.body) : ∀ cb ∈ (if b = true then l else []), kind cb.body := by
  intro cb hcb
  split at hcb
  · exact h cb hcb
  · cases hcb

theorem touches_resubscribe
    {attrs : MultiMap ObjectClassHandle AttributeHandle → MultiMap ObjectClassHandle AttributeHandle}
    {interactions : HashSet InteractionClassHandle → HashSet InteractionClassHandle}
    {matrix : SubscriptionMatrix} :
    Federation.Touches [.federate .subscribed, .subscriptions] fed
      (fed.resubscribe h attrs interactions matrix) := by
  refine .trans (.mono ?_ (touches_modifyPubSub [.subscribed] ?_))
    (.mono ?_ Federation.touches_subscriptions)
  · decide
  · intro fs q hq
    cases q <;> first | rfl | exact absurd (List.mem_singleton_self _) hq
  · decide

theorem touches_published (hf : ∀ ps, f ps = { ps with
      publishedAttrs := (f ps).publishedAttrs
      publishedInteractions := (f ps).publishedInteractions }) :
    Federation.Touches [.federate .published] fed (fed.modifyPubSub h f) := by
  refine touches_modifyPubSub [.published] ?_
  intro fs q hq
  rw [hf]
  cases q <;> first | rfl | exact absurd (List.mem_singleton_self _) hq

theorem touches_directed (hf : ∀ ps, f ps = { ps with
      subscribedDirectedInteractions := (f ps).subscribedDirectedInteractions
      publishedDirectedInteractions := (f ps).publishedDirectedInteractions }) :
    Federation.Touches [.federate .directed] fed (fed.modifyPubSub h f) := by
  refine touches_modifyPubSub [.directed] ?_
  intro fs q hq
  rw [hf]
  cases q <;> first | rfl | exact absurd (List.mem_singleton_self _) hq

theorem serveDeclaration_confined (r : DeclarationRequest) :
    (serveDeclaration c fed r).Confined
      [.federate .published, .federate .subscribed, .subscriptions] (CallbackRequest.On .relevance) fed := by
  have hpub : [Part.federate .published] ⊆
      [.federate .published, .federate .subscribed, .subscriptions] := by decide
  have hsub : [Part.federate .subscribed, .subscriptions] ⊆
      [.federate .published, .federate .subscribed, .subscriptions] := by decide
  cases r with
  | publishObjectClassAttributes | unpublishObjectClassAttributes =>
    exact .mono hpub (.ofExcept (.bind fun _ _ => .bind fun _ _ =>
      .pure (.silent (touches_published fun _ => rfl))))
  | subscribeObjectClassAttributes | unsubscribeObjectClassAttributes =>
    exact .mono hsub (.ofExcept (.bind fun _ _ => .bind fun _ _ =>
      .pure (.reply touches_resubscribe (forall_ite (forall_emitAdvisory rfl)))))
  | publishInteractionClass | unpublishInteractionClass | unpublishObjectClass =>
    exact .mono hpub (.ofExcept (.bind fun _ _ => .pure (.silent (touches_published fun _ => rfl))))
  | subscribeInteractionClass | unsubscribeInteractionClass =>
    exact .mono hsub (.ofExcept (.bind fun _ _ =>
      .pure (.reply touches_resubscribe (forall_ite (forall_emitAdvisory rfl)))))
  | unsubscribeObjectClass =>
    exact .mono hsub (.ofExcept (.bind fun _ _ => .pure (.silent touches_resubscribe)))

theorem serveDirected_confined (r : DirectedRequest) :
    (serveDirected c fed r).Confined [.federate .directed] (CallbackRequest.On .directed) fed := by
  cases r with
  | sendDirectedInteraction =>
    exact .ofExcept (.bind fun _ _ => .bind fun _ _ => .bind fun _ _ => .bind fun _ _ =>
      .pure (.reply .refl (forall_fanOut rfl)))
  | _ =>
    exact .ofExcept (.bind fun _ _ => .pure (.silent (touches_directed fun _ => rfl)))

theorem serveSwitch_confined (r : SwitchRequest) :
    (serveSwitch c fed r).Confined [.federate .switches] (fun _ => False) fed := by
  have htouch : ∀ f : Switches → Switches, Federation.Touches [.federate .switches] fed
      (fed.modifyFederate c.federate fun fs => { fs with switches := f fs.switches }) := by
    intro f
    refine Federation.touches_modifyFederate [.switches] ?_
    intro fs q hq
    cases q <;> first | rfl | exact absurd (List.mem_singleton_self _) hq
  cases r with
  | setSwitch s value => exact .ofExcept (.bind fun _ _ => .pure (.silent (htouch (·.set value s))))
  | setAutomaticResignDirective =>
    exact .ofExcept (.bind fun action _ => .bind fun _ _ =>
      .pure (.silent (htouch fun s => { s with automaticResignDirective := action })))

end Hla4
