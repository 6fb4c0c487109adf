/-
# `Hla4.Rti.Request` — call requests and their decoding

The `CallRequest` variants, grouped as the dispatcher groups them.  Handles and
times arrive as bytes of any length, and any message field may be missing, so
every such field is an `Option` and decoding it can fail.

    ServiceRequest     served on the federation the session is joined to
    FederationRequest  create, destroy, join, resign and the two lists
    StatelessRequest   answered without looking at any state

Data the server drops unread (update rates, credentials, the arguments of the
services that do nothing, the resign action) is left out.
-/
import Hla4.Lib.Checked
import Hla4.Rti.Wire

namespace Hla4

open Lib

/-- A handle or a time on the wire; `none` when the field is missing. -/
abbrev WireField := Option Bytes

/-- A repeated handle field inside an optional message. -/
abbrev WireSet := Option (List Bytes)

/-- Entries of a handle-value map: the handle field, and the value. -/
abbrev WireValueMap := Option (List (WireField × Bytes))

/-- One attribute-set/region-set pair. -/
structure WireRegionPair where
  attributeSet : WireSet
  regionSet : WireSet

abbrev WireRegionPairs := Option (List WireRegionPair)

/-! ## Decoding -/

/-- `decode_u32`: exactly four bytes, big-endian. -/
def decodeU32 (bytes : Bytes) : Option UInt32 :=
  if bytes.length = 4 then some (UInt32.ofNat (bigEndian bytes)) else none

/-- `decode_u64`: exactly eight bytes, big-endian. -/
def decodeU64 (bytes : Bytes) : Option UInt64 :=
  if bytes.length = 8 then some (UInt64.ofNat (bigEndian bytes)) else none

def decodeObjectClass (bytes : Bytes) : Option ObjectClassHandle := (decodeU32 bytes).map .mk
def decodeAttribute (bytes : Bytes) : Option AttributeHandle := (decodeU32 bytes).map .mk
def decodeInteractionClass (bytes : Bytes) : Option InteractionClassHandle :=
  (decodeU32 bytes).map .mk
def decodeParameter (bytes : Bytes) : Option ParameterHandle := (decodeU32 bytes).map .mk
def decodeObjectInstance (bytes : Bytes) : Option ObjectInstanceHandle :=
  (decodeU64 bytes).map .mk
def decodeFederate (bytes : Bytes) : Option FederateHandle := (decodeU32 bytes).map .mk
def decodeDimension (bytes : Bytes) : Option DimensionHandle := (decodeU32 bytes).map .mk
def decodeRegion (bytes : Bytes) : Option RegionHandle := (decodeU64 bytes).map .mk

/-- The eight bytes of a float, `f64::from_be_bytes`. -/
def decodeF64 (bytes : Bytes) : Option F64 :=
  if bytes.length = 8 then some (F64.ofBits (bigEndian bytes)) else none

/-- `decode_logical_time` of a field that may be missing; `missing` is the
details text used then. -/
def decodeLogicalTime (time : WireField) (missing : String) : Except ExceptionData F64 := do
  let bytes ← getOr time (HlaException.invalidLogicalTime.because missing)
  getOr (decodeF64 bytes) HlaException.invalidLogicalTime.bare

/-- `decode_handle_set`: the first undecodable handle fails the call. -/
def decodeHandleSet (set : WireSet) : Except ExceptionData (HashSet AttributeHandle) := do
  let handles ← (set.getD []).mapM fun bytes =>
    getOr (decodeAttribute bytes) HlaException.invalidAttributeHandle.bare
  pure (HashSet.ofList handles)

/-- `decode_attribute_value_map` and `decode_parameter_value_map`: a missing
or undecodable handle fails the call; of two values for a handle the later
one counts. -/
def decodeValueMap {H : Type} [DecidableEq H] (decode : Bytes → Option H) (invalid : HlaException)
    (map : WireValueMap) : Except ExceptionData (HashMap H Bytes) := do
  let entries ← (map.getD []).mapM fun entry => do
    let bytes ← getOr entry.1 (invalid.because "missing handle")
    let handle ← getOr (decode bytes) invalid.bare
    pure (handle, entry.2)
  pure (entries.foldl (fun out entry => AList.insert entry.1 entry.2 out) ∅)

def decodeAttributeValueMap : WireValueMap → Except ExceptionData (HashMap AttributeHandle Bytes) :=
  decodeValueMap decodeAttribute .invalidAttributeHandle

def decodeParameterValueMap : WireValueMap → Except ExceptionData (HashMap ParameterHandle Bytes) :=
  decodeValueMap decodeParameter .invalidParameterHandle

/-- `decode_attr_region_pairs`: undecodable handles are skipped, and the region
sets of an attribute named by several pairs are united. -/
def decodeAttrRegionPairs (pairs : WireRegionPairs) : MultiMap AttributeHandle RegionHandle :=
  (pairs.getD []).foldl (fun out pair =>
      let regions := (pair.regionSet.getD []).filterMap decodeRegion
      ((pair.attributeSet.getD []).filterMap decodeAttribute).foldl
        (fun out attr => out.add attr regions) out) ∅

/-- `decode_interaction_class_set`: undecodable handles are skipped. -/
def decodeInteractionClassSet (set : WireSet) : List InteractionClassHandle :=
  (set.getD []).filterMap decodeInteractionClass

/-! ## Requests on a federation -/

/-- The forms of `subscribeObjectClassAttributes`, all served alike. -/
inductive SubscribeForm
  | plain
  | withRate
  | passively
  | passivelyWithRate

inductive DeclarationRequest
  | publishObjectClassAttributes (objectClass : WireField) (attributes : WireSet)
  | unpublishObjectClassAttributes (objectClass : WireField) (attributes : WireSet)
  | subscribeObjectClassAttributes (form : SubscribeForm) (objectClass : WireField)
      (attributes : WireSet)
  | unsubscribeObjectClassAttributes (objectClass : WireField) (attributes : WireSet)
  | publishInteractionClass (interactionClass : WireField)
  | unpublishInteractionClass (interactionClass : WireField)
  | subscribeInteractionClass (passively : Bool) (interactionClass : WireField)
  | unsubscribeInteractionClass (interactionClass : WireField)
  | unpublishObjectClass (objectClass : WireField)
  | unsubscribeObjectClass (objectClass : WireField)

inductive RegionRequest
  | createRegion (dimensions : WireSet)
  | commitRegionModifications (regions : WireSet)
  | deleteRegion (region : WireField)
  | getRangeBounds (region dimension : WireField)
  | setRangeBounds (region dimension : WireField) (bounds : Option (UInt32 × UInt32))
  | subscribeObjectClassAttributesWithRegions (objectClass : WireField) (pairs : WireRegionPairs)
  | unsubscribeObjectClassAttributesWithRegions (objectClass : WireField)
      (pairs : WireRegionPairs)

inductive DirectedRequest
  | publishObjectClassDirectedInteractions (objectClass : WireField) (interactions : WireSet)
  | unpublishObjectClassDirectedInteractions (objectClass : WireField)
  | unpublishObjectClassDirectedInteractionsWithSet (objectClass : WireField)
      (interactions : WireSet)
  | subscribeObjectClassDirectedInteractions (objectClass : WireField) (interactions : WireSet)
  | subscribeObjectClassDirectedInteractionsUniversally (objectClass : WireField)
      (interactions : WireSet)
  | unsubscribeObjectClassDirectedInteractions (objectClass : WireField)
  | unsubscribeObjectClassDirectedInteractionsWithSet (objectClass : WireField)
      (interactions : WireSet)
  | sendDirectedInteraction (interactionClass objectInstance : WireField) (params : WireValueMap)
      (tag : Bytes)

inductive ObjectRequest
  | registerObjectInstance (objectClass : WireField)
  | registerObjectInstanceWithName (objectClass : WireField) (name : String)
  | registerObjectInstanceWithRegions (objectClass : WireField) (pairs : WireRegionPairs)
  | registerObjectInstanceWithNameAndRegions (objectClass : WireField) (name : String)
      (pairs : WireRegionPairs)
  | updateAttributeValues (objectInstance : WireField) (values : WireValueMap) (tag : Bytes)
  | updateAttributeValuesWithTime (objectInstance : WireField) (values : WireValueMap)
      (tag : Bytes) (time : WireField)
  | sendInteraction (withRegions : Bool) (interactionClass : WireField) (params : WireValueMap)
      (tag : Bytes)
  | sendInteractionWithTime (withRegions : Bool) (interactionClass : WireField)
      (params : WireValueMap) (tag : Bytes) (time : WireField)
  | deleteObjectInstance (objectInstance : WireField) (tag : Bytes)
  | deleteObjectInstanceWithTime (objectInstance : WireField) (tag : Bytes) (time : WireField)
  | localDeleteObjectInstance (objectInstance : WireField)

/-- The forms of divestiture, all served as the unconditional one. -/
inductive DivestitureForm
  | unconditional
  | negotiated
  | ifWanted

inductive OwnershipRequest
  | isAttributeOwnedByFederate (objectInstance attr : WireField)
  | queryAttributeOwnership (objectInstance : WireField) (attributes : WireSet)
  | attributeOwnershipDivestiture (form : DivestitureForm) (objectInstance : WireField)
      (attributes : WireSet)
  /-- a negotiated acquisition is served as `ifAvailable` -/
  | attributeOwnershipAcquisition (ifAvailable : Bool) (objectInstance : WireField)
      (attributes : WireSet) (tag : Bytes)

inductive SaveRestoreRequest
  /-- the time of a save with time is dropped -/
  | requestFederationSave (withTime : Bool) (label : String)
  | federateSaveBegun
  | federateSaveComplete
  | federateSaveNotComplete
  | abortFederationSave
  | requestFederationRestore (label : String)
  | federateRestoreComplete
  | federateRestoreNotComplete
  | abortFederationRestore

inductive SyncPointRequest
  | registerFederationSynchronizationPoint (label : String) (tag : Bytes)
  | registerFederationSynchronizationPointWithSet (label : String) (tag : Bytes) (set : WireSet)
  | synchronizationPointAchieved (label : String) (successfully : Bool)

/-- The kinds of advance requests, all served alike. -/
inductive AdvanceService
  | timeAdvanceRequest
  | timeAdvanceRequestAvailable
  | nextMessageRequest
  | nextMessageRequestAvailable
  | flushQueueRequest

inductive TimeRequest
  | enableTimeRegulation (lookahead : WireField)
  | disableTimeRegulation
  | enableTimeConstrained
  | disableTimeConstrained
  | advance (service : AdvanceService) (time : WireField)
  | modifyLookahead (lookahead : WireField)

inductive SwitchRequest
  | setSwitch (s : AdvisorySwitch) (value : Bool)
  | setAutomaticResignDirective (value : Int32)

/-- Requests that only read the federation. -/
inductive LookupRequest
  | getSwitch (s : SwitchName)
  | getAutomaticResignDirective
  | getObjectInstanceHandle (name : String)
  | getObjectInstanceName (objectInstance : WireField)
  | getKnownObjectClassHandle (objectInstance : WireField)
  | getDimensionHandle (name : String)
  | getDimensionHandleSet (region : WireField)
  | getFederateHandle (name : String)
  | getFederateName (federate : WireField)
  | getObjectClassHandle (name : String)
  | getObjectClassName (objectClass : WireField)
  | getAttributeHandle (objectClass : WireField) (name : String)
  | getAttributeName (objectClass attr : WireField)
  | getInteractionClassHandle (name : String)
  | getInteractionClassName (interactionClass : WireField)
  | getParameterHandle (interactionClass : WireField) (name : String)
  | getParameterName (interactionClass parameter : WireField)
  | queryLogicalTime
  | queryLookahead
  | queryLits
  | queryGalt

/-- A request served on the federation the session is joined to. -/
inductive ServiceRequest
  | declaration (r : DeclarationRequest)
  | region (r : RegionRequest)
  | directed (r : DirectedRequest)
  | object (r : ObjectRequest)
  | ownership (r : OwnershipRequest)
  | saveRestore (r : SaveRestoreRequest)
  | syncPoint (r : SyncPointRequest)
  | time (r : TimeRequest)
  | switch (r : SwitchRequest)
  | lookup (r : LookupRequest)

/-! ## The other requests -/

/-- A FOM module in a create request. -/
inductive WireFomModule
  | file (name : String) (content : Bytes)
  | compressedModule
  | url
  | unset

inductive FederationRequest
  | createFederationExecution (form : CreateForm) (name : String) (modules : List WireFomModule)
  | destroyFederationExecution (name : String)
  | listFederationExecutionMembers (name : String)
  | listFederationExecutions
  | joinFederationExecution (form : JoinForm) (federateName federationName : String)
  | resignFederationExecution

/-- Requests answered without looking at any state. -/
inductive StatelessRequest
  | noOp (s : NoOpService)
  | getDimensionName (dimension : WireField)
  | getDimensionUpperBound
  | getAvailableDimensionsForObjectClass
  | getAvailableDimensionsForInteractionClass
  | getOrderType (name : String)
  | getOrderName (orderType : Int32)
  | getTransportationTypeHandle (name : String)
  | getTransportationTypeName (transportationType : WireField)
  | normalizeServiceGroup (serviceGroup : Int32)
  | normalizeFederateHandle (federate : WireField)
  | normalizeObjectClassHandle (objectClass : WireField)
  | normalizeInteractionClassHandle (interactionClass : WireField)
  | normalizeObjectInstanceHandle (objectInstance : WireField)

/-- An `HLA_CALL_REQUEST`. -/
inductive CallRequest
  /-- the bytes are not a `CallRequest` message -/
  | malformed (error : String)
  /-- a message with no variant set -/
  | unset
  | stateless (r : StatelessRequest)
  | federation (r : FederationRequest)
  | service (r : ServiceRequest)

end Hla4
