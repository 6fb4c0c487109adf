/-
# `Hla4.Rti.Wire` — exceptions, callbacks and responses

What the server sends.  A response is an exception or the result of the
service; a callback is one of the messages the server pushes at a federate.

Requests arrive as undecoded bytes (`Hla4.Rti.Request`), since decoding them can
fail.  What is sent is built from typed values and cannot fail to encode, so
callbacks and responses carry handles and times as values.  Fields the server
always sends as the same constant (order type, transportation type, the empty
retraction handle) are left out.
-/
import Hla4.Omt.Merge

namespace Hla4

open Lib

/-! ## Exceptions -/

inductive HlaException
  | attributeNotDefined
  | attributeNotOwned
  | couldNotOpenFdd
  | deletePrivilegeNotHeld
  | errorReadingFdd
  | federateAlreadyExecutionMember
  | federateNameAlreadyInUse
  | federateNotExecutionMember
  | federateNotInSaveInitiated
  | federateNotInSaveSet
  | federateNotInSynchronizationGroup
  | federatesCurrentlyJoined
  | federationExecutionAlreadyExists
  | federationExecutionDoesNotExist
  | interactionClassNotDefined
  | interactionClassNotPublished
  | interactionParameterNotDefined
  | inTimeAdvancingState
  | invalidAttributeHandle
  | invalidDimension
  | invalidDimensionHandle
  | invalidFederateHandle
  | invalidInteractionClassHandle
  | invalidLogicalTime
  | invalidLookahead
  | invalidObjectClassHandle
  | invalidObjectInstanceHandle
  | invalidOrderName
  | invalidOrderType
  | invalidParameterHandle
  | invalidRangeBound
  | invalidRegion
  | invalidResignAction
  | invalidRestoreLabel
  | invalidSaveLabel
  | invalidSynchronizationPointLabel
  | invalidTransportationName
  | invalidTransportationTypeHandle
  | logicalTimeAlreadyPassed
  | nameNotFound
  | objectClassNotDefined
  | objectClassNotPublished
  | objectInstanceNameInUse
  | objectInstanceNotKnown
  | regionNotCreatedByThisFederate
  | restoreInProgress
  | restoreNotInProgress
  | rtiInternalError
  | saveInProgress
  | saveNotInProgress
  | synchronizationPointLabelNotAnnounced
  | timeConstrainedAlreadyEnabled
  | timeConstrainedIsNotEnabled
  | timeRegulationAlreadyEnabled
  | timeRegulationIsNotEnabled
deriving DecidableEq

/-- The `details` text of an exception.  Texts with a formatted float, a quoted
name or an error of another crate in them are kept by their parts. -/
inductive Details
  | text (s : String)
  /-- `v.to_string()` -/
  | float (v : F64)
  /-- "time … < current+lookahead …" -/
  | timeBelow (time : F64) (lbts : Timestamp)
  /-- "FOM module … content is not UTF-8: …" -/
  | fomNotUtf8 (name reason : String)
  /-- "…: …", the module's name and the parser's error -/
  | fomUnparsable (name reason : String)
  /-- the merge's error -/
  | fom (e : Omt.FomError)
deriving DecidableEq

structure ExceptionData where
  kind : HlaException
  details : Details
deriving DecidableEq

/-- `exception_variant` with a literal text. -/
def HlaException.because (kind : HlaException) (text : String) : ExceptionData :=
  ⟨kind, .text text⟩

/-- `exception_variant` with no text. -/
def HlaException.bare (kind : HlaException) : ExceptionData := kind.because ""

/-! ## Callbacks -/

/-- `HLA_CALLBACK_REQUEST` bodies. -/
inductive CallbackRequest
  | discoverObjectInstance (inst : ObjectInstanceHandle) (cls : ObjectClassHandle) (name : String)
      (producer : FederateHandle)
  | reflectAttributeValues (inst : ObjectInstanceHandle) (values : HashMap AttributeHandle Bytes)
      (tag : Bytes) (producer : FederateHandle)
  | reflectAttributeValuesWithTime (inst : ObjectInstanceHandle)
      (values : HashMap AttributeHandle Bytes) (tag : Bytes) (producer : FederateHandle)
      (time : F64)
  | receiveInteraction (cls : InteractionClassHandle) (params : HashMap ParameterHandle Bytes)
      (tag : Bytes) (producer : FederateHandle)
  | receiveInteractionWithTime (cls : InteractionClassHandle)
      (params : HashMap ParameterHandle Bytes) (tag : Bytes) (producer : FederateHandle)
      (time : F64)
  | receiveDirectedInteraction (cls : InteractionClassHandle) (inst : ObjectInstanceHandle)
      (params : HashMap ParameterHandle Bytes) (tag : Bytes) (producer : FederateHandle)
  | removeObjectInstance (inst : ObjectInstanceHandle) (tag : Bytes) (producer : FederateHandle)
  | removeObjectInstanceWithTime (inst : ObjectInstanceHandle) (tag : Bytes)
      (producer : FederateHandle) (time : F64)
  | reportFederationExecutionMembers (federation : String) (members : List (String × String))
  | reportFederationExecutionDoesNotExist (federation : String)
  | reportFederationExecutions (federations : List String)
  | attributeOwnershipAcquisitionNotification (inst : ObjectInstanceHandle)
      (secured : List AttributeHandle) (tag : Bytes)
  | attributeOwnershipUnavailable (inst : ObjectInstanceHandle) (attrs : List AttributeHandle)
      (tag : Bytes)
  | informAttributeOwnership (inst : ObjectInstanceHandle) (attrs : List AttributeHandle)
      (owner : FederateHandle)
  | attributeIsNotOwned (inst : ObjectInstanceHandle) (attrs : List AttributeHandle)
  | requestFederationRestoreSucceeded (label : String)
  | requestFederationRestoreFailed (label : String)
  | federationRestoreBegun
  | initiateFederateRestore (label name : String) (federate : FederateHandle)
  | federationRestored
  | federationNotRestored (reason : Nat)
  | initiateFederateSave (label : String)
  | federationSaved
  | federationNotSaved (reason : Nat)
  | synchronizationPointRegistrationSucceeded (label : String)
  | synchronizationPointRegistrationFailed (label : String) (reason : Nat)
  | announceSynchronizationPoint (label : String) (tag : Bytes)
  | federationSynchronized (label : String) (failed : List FederateHandle)
  | startRegistrationForObjectClass (cls : ObjectClassHandle)
  | stopRegistrationForObjectClass (cls : ObjectClassHandle)
  | turnInteractionsOn (cls : InteractionClassHandle)
  | turnInteractionsOff (cls : InteractionClassHandle)
  | timeRegulationEnabled (time : ℚ)
  | timeConstrainedEnabled (time : ℚ)
  | timeAdvanceGrant (time : ℚ)

/-- Not the announcement of a time advance. -/
def CallbackRequest.NotGrant (body : CallbackRequest) : Prop := ∀ t, body ≠ .timeAdvanceGrant t

/-- Neither a grant nor a timestamped message: nothing whose order against a
federate's logical time matters. -/
def CallbackRequest.Untimed : CallbackRequest → Prop
  | timeAdvanceGrant _ => False
  | reflectAttributeValuesWithTime .. => False
  | receiveInteractionWithTime .. => False
  | removeObjectInstanceWithTime .. => False
  | _ => True

/-- What a callback is about. -/
inductive CallbackTopic
  | object
  | interaction
  | directed
  | report
  | ownership
  | saveRestore
  | syncPoint
  | relevance
  | time
deriving DecidableEq

def CallbackRequest.topic : CallbackRequest → CallbackTopic
  | discoverObjectInstance .. => .object
  | reflectAttributeValues .. => .object
  | reflectAttributeValuesWithTime .. => .object
  | receiveInteraction .. => .interaction
  | receiveInteractionWithTime .. => .interaction
  | receiveDirectedInteraction .. => .directed
  | removeObjectInstance .. => .object
  | removeObjectInstanceWithTime .. => .object
  | reportFederationExecutionMembers .. => .report
  | reportFederationExecutionDoesNotExist .. => .report
  | reportFederationExecutions .. => .report
  | attributeOwnershipAcquisitionNotification .. => .ownership
  | attributeOwnershipUnavailable .. => .ownership
  | informAttributeOwnership .. => .ownership
  | attributeIsNotOwned .. => .ownership
  | requestFederationRestoreSucceeded .. => .saveRestore
  | requestFederationRestoreFailed .. => .saveRestore
  | federationRestoreBegun => .saveRestore
  | initiateFederateRestore .. => .saveRestore
  | federationRestored => .saveRestore
  | federationNotRestored .. => .saveRestore
  | initiateFederateSave .. => .saveRestore
  | federationSaved => .saveRestore
  | federationNotSaved .. => .saveRestore
  | synchronizationPointRegistrationSucceeded .. => .syncPoint
  | synchronizationPointRegistrationFailed .. => .syncPoint
  | announceSynchronizationPoint .. => .syncPoint
  | federationSynchronized .. => .syncPoint
  | startRegistrationForObjectClass .. => .relevance
  | stopRegistrationForObjectClass .. => .relevance
  | turnInteractionsOn .. => .relevance
  | turnInteractionsOff .. => .relevance
  | timeRegulationEnabled .. => .time
  | timeConstrainedEnabled .. => .time
  | timeAdvanceGrant .. => .time

def CallbackRequest.On (t : CallbackTopic) (body : CallbackRequest) : Prop := body.topic = t

/-- An update, an interaction, or the coming or going of an instance. -/
def CallbackRequest.Data (body : CallbackRequest) : Prop := body.On .object ∨ body.On .interaction

/-- The timestamp of a timestamped message. -/
def CallbackRequest.timestamp : CallbackRequest → Option F64
  | reflectAttributeValuesWithTime _ _ _ _ time => some time
  | receiveInteractionWithTime _ _ _ _ time => some time
  | removeObjectInstanceWithTime _ _ _ time => some time
  | _ => none

/-- The time of a grant. -/
def CallbackRequest.grantTime? : CallbackRequest → Option ℚ
  | timeAdvanceGrant t => some t
  | _ => none

variable {body : CallbackRequest}

theorem CallbackRequest.eq_of_grantTime? {t : ℚ} (h : body.grantTime? = some t) :
    body = .timeAdvanceGrant t := by
  cases body <;> cases h
  rfl

/-- The timestamp of an update. -/
def CallbackRequest.reflectTime? : CallbackRequest → Option F64
  | reflectAttributeValuesWithTime _ _ _ _ time => some time
  | _ => none

theorem CallbackRequest.timestamp_of_reflectTime? {time : F64} (h : body.reflectTime? = some time) :
    body.timestamp = some time := by
  cases body <;> cases h
  rfl

theorem CallbackRequest.notGrant_of_timestamp {time : F64} (h : body.timestamp = some time) :
    body.NotGrant := by
  rintro t rfl
  cases h

theorem CallbackRequest.Untimed.timestamp (h : body.Untimed) :
    body.timestamp = none := by
  cases body <;> first | rfl | exact h.elim

theorem CallbackRequest.Untimed.reflectTime? (h : body.Untimed) :
    body.reflectTime? = none := by
  cases body <;> first | rfl | exact h.elim

theorem CallbackRequest.Data.notGrant (h : body.Data) : body.NotGrant := by
  rintro t rfl
  rcases h with h | h
  · cases h
  · cases h

theorem CallbackRequest.data_of_timestamp {time : F64} (h : body.timestamp = some time) :
    body.Data := by
  cases body <;> first | exact .inl rfl | exact .inr rfl | cases h

/-- Only data and grants have to do with times. -/
theorem CallbackRequest.On.untimed {t : CallbackTopic} (h : body.On t)
    (ht : t ∉ [.object, .interaction, .time]) : body.Untimed := by
  cases body <;> first | trivial | (rw [← h] at ht; simp [topic] at ht)

theorem CallbackRequest.Untimed.notGrant (h : body.Untimed) :
    body.NotGrant := by
  rintro t rfl
  exact h

/-! ## Responses -/

/-- The advisory and reporting switches a federate can set. -/
inductive AdvisorySwitch
  | objectClassRelevanceAdvisory
  | attributeRelevanceAdvisory
  | attributeScopeAdvisory
  | interactionRelevanceAdvisory
  | conveyRegionDesignatorSets
  | serviceReporting
  | exceptionReporting
  | sendServiceReportsToFile
deriving DecidableEq

/-- The switches the FOM decides. -/
inductive FomSwitch
  | autoProvide
  | delaySubscriptionEvaluation
  | advisoriesUseKnownClass
  | allowRelaxedDdm
  | nonRegulatedGrant
deriving DecidableEq

inductive SwitchName
  | advisory (s : AdvisorySwitch)
  | fom (s : FomSwitch)
deriving DecidableEq

/-- The forms of `createFederationExecution`. -/
inductive CreateForm
  | plain
  | withTime
  | withModules
  | withModulesAndTime
  | withMim
  | withMimAndTime
deriving DecidableEq

/-- The forms of `joinFederationExecution`. -/
inductive JoinForm
  | plain
  | withName
  | withModules
  | withNameAndModules
deriving DecidableEq

/-- The forms of `registerObjectInstance`. -/
inductive RegisterForm
  | plain
  | withName
  | withRegions
  | withNameAndRegions
deriving DecidableEq

/-- Services that are acknowledged and do nothing. -/
inductive NoOpService
  | connect
  | connectWithCredentials
  | connectWithConfiguration
  | connectWithConfigurationAndCredentials
  | disconnect
  | attributeOwnershipReleaseDenied
  | cancelNegotiatedAttributeOwnershipDivestiture
  | cancelAttributeOwnershipAcquisition
  | confirmDivestiture
  | queryFederationSaveStatus
  | queryFederationRestoreStatus
  | subscribeInteractionClassWithRegions
  | unsubscribeInteractionClassWithRegions
  | subscribeObjectClassAttributesWithRegionsAndRate
  | associateRegionsForUpdates
  | unassociateRegionsForUpdates
  | requestAttributeValueUpdateWithRegions
  | retract
  | changeAttributeOrderType
  | changeDefaultAttributeOrderType
  | changeInteractionOrderType
  | requestAttributeTransportationTypeChange
  | queryAttributeTransportationType
  | requestInteractionTransportationTypeChange
  | queryInteractionTransportationType
  | changeDefaultAttributeTransportationType
  /-- always 0.0 -/
  | getUpdateRateValue
  /-- always 0.0 -/
  | getUpdateRateValueForAttribute
  | reserveObjectInstanceName
  | reserveMultipleObjectInstanceNames
  | releaseObjectInstanceName
  | releaseMultipleObjectInstanceNames
  | requestClassAttributeValueUpdate
  | requestInstanceAttributeValueUpdate
  | enableAsynchronousDelivery
  | disableAsynchronousDelivery
  | sendDirectedInteractionWithTime
deriving DecidableEq

/-- Empty responses of services that do something. -/
inductive Ack
  | createFederationExecution (form : CreateForm)
  | destroyFederationExecution
  | listFederationExecutionMembers
  | listFederationExecutions
  | resignFederationExecution
  | setSwitch (s : AdvisorySwitch)
  | setAutomaticResignDirective
  | localDeleteObjectInstance
  | publishObjectClassAttributes
  | unpublishObjectClassAttributes
  | unpublishObjectClass
  | subscribeObjectClassAttributes
  | unsubscribeObjectClassAttributes
  | unsubscribeObjectClass
  | publishInteractionClass
  | unpublishInteractionClass
  | subscribeInteractionClass
  | unsubscribeInteractionClass
  | updateAttributeValues
  | updateAttributeValuesWithTime
  | sendInteraction
  | sendInteractionWithTime
  | deleteObjectInstance
  | deleteObjectInstanceWithTime
  | queryAttributeOwnership
  | unconditionalAttributeOwnershipDivestiture
  | attributeOwnershipAcquisitionIfAvailable
  | requestFederationSave
  | federateSaveBegun
  | federateSaveComplete
  | federateSaveNotComplete
  | abortFederationSave
  | requestFederationRestore
  | federateRestoreComplete
  | federateRestoreNotComplete
  | abortFederationRestore
  | registerFederationSynchronizationPoint
  | synchronizationPointAchieved
  | commitRegionModifications
  | deleteRegion
  | setRangeBounds
  | subscribeObjectClassAttributesWithRegions
  | unsubscribeObjectClassAttributesWithRegions
  | enableTimeRegulation
  | disableTimeRegulation
  | enableTimeConstrained
  | disableTimeConstrained
  | timeAdvanceRequest
  | modifyLookahead
  | publishObjectClassDirectedInteractions
  | unpublishObjectClassDirectedInteractions
  | subscribeObjectClassDirectedInteractions
  | unsubscribeObjectClassDirectedInteractions
  | sendDirectedInteraction
deriving DecidableEq

/-- Handles a `normalize` service turns into numbers. -/
inductive NormalizeKind
  | serviceGroup
  | federateHandle
  | objectClassHandle
  | interactionClassHandle
  | objectInstanceHandle
deriving DecidableEq

inductive Resp
  | exceptionData (e : ExceptionData)
  | ack (a : Ack)
  | noOp (s : NoOpService)
  | joinFederationExecution (form : JoinForm) (federate : FederateHandle)
      (logicalTimeImplementationName : String)
  | getSwitch (s : SwitchName) (result : Bool)
  | getAutomaticResignDirective (result : Int32)
  | getObjectInstanceHandle (result : ObjectInstanceHandle)
  | getObjectInstanceName (result : String)
  | getKnownObjectClassHandle (result : ObjectClassHandle)
  | getDimensionHandle (result : DimensionHandle)
  | getDimensionName (result : String)
  | getDimensionUpperBound (result : UInt32)
  | getDimensionHandleSet (result : List DimensionHandle)
  | getAvailableDimensionsForObjectClass (result : List DimensionHandle)
  | getAvailableDimensionsForInteractionClass (result : List DimensionHandle)
  | getFederateHandle (result : FederateHandle)
  | getFederateName (result : String)
  | getOrderType (result : Int32)
  | getOrderName (result : String)
  | getTransportationTypeHandle (result : UInt32)
  | getTransportationTypeName (result : String)
  | getObjectClassHandle (result : ObjectClassHandle)
  | getObjectClassName (result : String)
  | getAttributeHandle (result : AttributeHandle)
  | getAttributeName (result : String)
  | getInteractionClassHandle (result : InteractionClassHandle)
  | getInteractionClassName (result : String)
  | getParameterHandle (result : ParameterHandle)
  | getParameterName (result : String)
  | registerObjectInstance (form : RegisterForm) (result : ObjectInstanceHandle)
  | isAttributeOwnedByFederate (result : Bool)
  | createRegion (result : RegionHandle)
  | getRangeBounds (lower upper : UInt32)
  | queryLogicalTime (result : ℚ)
  | queryLookahead (result : ℚ)
  | queryLits (valid : Bool) (time : ℚ)
  | queryGalt (valid : Bool) (time : ℚ)
  | normalize (kind : NormalizeKind) (result : UInt32)

/-- The call was accepted: its response is not an exception. -/
def Resp.accepted : Resp → Bool
  | .exceptionData _ => false
  | _ => true

end Hla4
