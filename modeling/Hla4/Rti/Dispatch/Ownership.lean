/-
# `Hla4.Rti.Dispatch.Ownership` — attribute ownership

Handlers of `ownership.rs`.  An attribute of an instance has one owner or none.
Acquiring takes what nobody owns, divesting gives up what the caller owns; both
skip the other attributes and tell who is concerned.
-/
import Hla4.Rti.Dispatch.Declaration

namespace Hla4

open Lib

variable (c : Caller) (fed : Federation)

/-- The instance handle of an ownership request. -/
def instanceArg (inst : WireField) : Except ExceptionData ObjectInstanceHandle :=
  getOr (inst.bind decodeObjectInstance) HlaException.objectInstanceNotKnown.bare

/-- The instance of a handle. -/
def knownInstance (inst : ObjectInstanceHandle) : Except ExceptionData ObjectInstance :=
  getOr (fed.objectInstances.lookup inst) HlaException.objectInstanceNotKnown.bare

/-- Replace the owners of an instance's attributes. -/
def Federation.setOwners (inst : ObjectInstanceHandle)
    (owners : HashMap AttributeHandle FederateHandle) : Federation :=
  { fed with objectInstances := fed.objectInstances.modify inst fun i =>
      { i with attributeOwners := owners } }

def isAttributeOwnedByFederate (inst attr : WireField) : Outcome :=
  .ofExcept fed do
    let inst ← instanceArg inst
    let attr ← getOr (attr.bind decodeAttribute) HlaException.invalidAttributeHandle.bare
    let i ← knownInstance fed inst
    pure (.reply fed (.isAttributeOwnedByFederate
      (decide (i.attributeOwners.lookup attr = some c.federate))) [])

/-- The answer for the attributes of one owner, or of none. -/
def ownershipReport (inst : ObjectInstanceHandle) (attrs : List AttributeHandle) :
    Option FederateHandle → CallbackRequest
  | some owner => .informAttributeOwnership inst attrs owner
  | none => .attributeIsNotOwned inst attrs

def queryAttributeOwnership (inst : WireField) (attrs : WireSet) : Outcome :=
  .ofExcept fed do
    let inst ← instanceArg inst
    let attrs ← decodeHandleSet attrs
    let i ← knownInstance fed inst
    let owners := c.env.owners.order (attrs.keys.map i.attributeOwners.lookup).dedup
    let registrant := fed.ownConnection c c.federate
    pure (.reply fed (.ack .queryAttributeOwnership) (owners.flatMap fun owner =>
      fanOut registrant (ownershipReport inst
        (attrs.keys.filter fun attr => decide (i.attributeOwners.lookup attr = owner)) owner)))

/-- Callbacks about a set of attributes, unless it is empty. -/
def aboutAttributes (attrs : List AttributeHandle) (callbacks : List OutboundCallback) :
    List OutboundCallback :=
  if attrs.isEmpty then [] else callbacks

def attributeOwnershipAcquisitionIfAvailable (inst : WireField) (attrs : WireSet) (tag : Bytes) :
    Outcome :=
  .ofExcept fed do
    let inst ← instanceArg inst
    let attrs ← decodeHandleSet attrs
    let i ← knownInstance fed inst
    let unavailable := attrs.keys.filter fun attr => decide (attr ∈ i.attributeOwners)
    let secured := attrs.keys.filter fun attr => decide (attr ∉ i.attributeOwners)
    let fed' := fed.setOwners inst
      (secured.foldl (fun owners attr => owners.insert attr c.federate) i.attributeOwners)
    let own := fed'.ownConnection c c.federate
    pure (.reply fed' (.ack .attributeOwnershipAcquisitionIfAvailable)
      (aboutAttributes secured
          (fanOut own (.attributeOwnershipAcquisitionNotification inst secured tag)) ++
        aboutAttributes unavailable
          (fanOut own (.attributeOwnershipUnavailable inst unavailable tag))))

/-- Everybody subscribed to a divested attribute is told, the caller too. -/
def unconditionalAttributeOwnershipDivestiture (inst : WireField) (attrs : WireSet) : Outcome :=
  .ofExcept fed do
    let inst ← instanceArg inst
    let attrs ← decodeHandleSet attrs
    let i ← knownInstance fed inst
    let divested := attrs.keys.filter fun attr =>
      decide (i.attributeOwners.lookup attr = some c.federate)
    let fed' := fed.setOwners inst (divested.foldl (fun owners attr => owners.erase attr) i.attributeOwners)
    pure (.reply fed' (.ack .unconditionalAttributeOwnershipDivestiture)
      (aboutAttributes divested
        (fanOut (fed'.liveConnections c (fed'.subscribersForAttributes i.cls divested none))
          (.attributeIsNotOwned inst divested))))

/-- The ownership services. -/
def serveOwnership : OwnershipRequest → Outcome
  | .isAttributeOwnedByFederate inst attr => isAttributeOwnedByFederate c fed inst attr
  | .queryAttributeOwnership inst attrs => queryAttributeOwnership c fed inst attrs
  | .attributeOwnershipDivestiture _ inst attrs =>
    unconditionalAttributeOwnershipDivestiture c fed inst attrs
  | .attributeOwnershipAcquisition _ inst attrs tag =>
    attributeOwnershipAcquisitionIfAvailable c fed inst attrs tag

variable {c fed}

theorem touches_setOwners {inst : ObjectInstanceHandle}
    {owners : HashMap AttributeHandle FederateHandle} :
    Federation.Touches [.instances] fed (fed.setOwners inst owners) :=
  Federation.touches_instances

theorem forall_aboutAttributes {kind : CallbackRequest → Prop} {attrs : List AttributeHandle}
    {l : List OutboundCallback} (h : ∀ cb ∈ l, kind cb.body) :
    ∀ cb ∈ aboutAttributes attrs l, kind cb.body := by
  intro cb hcb
  rw [aboutAttributes] at hcb
  split at hcb
  · cases hcb
  · exact h cb hcb

theorem serveOwnership_confined (r : OwnershipRequest) :
    (serveOwnership c fed r).Confined [.instances] (CallbackRequest.On .ownership) fed := by
  cases r with
  | isAttributeOwnedByFederate =>
    exact .ofExcept (.bind fun _ _ => .bind fun _ _ => .bind fun _ _ => .pure (.silent .refl))
  | queryAttributeOwnership =>
    refine .ofExcept (.bind fun _ _ => .bind fun _ _ => .bind fun _ _ => .pure (.reply .refl ?_))
    intro cb hcb
    obtain ⟨owner, _, hcb⟩ := List.mem_flatMap.mp hcb
    obtain ⟨_, _, rfl⟩ := mem_fanOut.mp hcb
    cases owner with
    | none => rfl
    | some => rfl
  | attributeOwnershipDivestiture =>
    exact .ofExcept (.bind fun _ _ => .bind fun _ _ => .bind fun _ _ =>
      .pure (.reply touches_setOwners (forall_aboutAttributes (forall_fanOut rfl))))
  | attributeOwnershipAcquisition =>
    exact .ofExcept (.bind fun _ _ => .bind fun _ _ => .bind fun _ _ =>
      .pure (.reply touches_setOwners (forall_append
        (forall_aboutAttributes (forall_fanOut rfl))
        (forall_aboutAttributes (forall_fanOut rfl)))))

/-- The ownership services set the owners of one instance, or change nothing. -/
theorem serveOwnership_sets {Q : Outcome → Prop}
    (same : ∀ o : Outcome, o.federation = fed → Q o)
    (sets : ∀ inst owners (ack : Ack) callbacks,
      Q (.reply (fed.setOwners inst owners) (.ack ack) callbacks))
    (r : OwnershipRequest) : Q (serveOwnership c fed r) := by
  have checked : ∀ {x : Except ExceptionData Outcome}, Yields x Q → Q (Outcome.ofExcept fed x) :=
    Outcome.ofExcept_of fun _ => same _ rfl
  cases r with
  | isAttributeOwnedByFederate | queryAttributeOwnership =>
    exact checked (.bind fun _ _ => .bind fun _ _ => .bind fun _ _ => .pure (same _ rfl))
  | attributeOwnershipDivestiture | attributeOwnershipAcquisition =>
    exact checked (.bind fun _ _ => .bind fun _ _ => .bind fun _ _ => .pure (sets ..))

end Hla4
