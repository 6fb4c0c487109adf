/-
# `Hla4.Rti.Dispatch.Lookup` — requests that only read

Handlers of `handle_lookup.rs`, `instance_lookup.rs`, `introspection.rs`, the
`get` half of `advisories.rs`, and the four time queries of `time_mgmt.rs`.
They return a response and change nothing.

A few requests are refused for a missing handle before the session's
membership is looked at (`LookupRequest.missingHandle`); all others find out
first that the caller is joined.
-/
import Hla4.Rti.Dispatch.Declaration
import Hla4.Rti.Time

namespace Hla4

open Lib

variable (c : Caller) (fed : Federation)

/-! ## Reading the federation -/

/-- The exception for a handle that is missing, made in `dispatch_call`. -/
def LookupRequest.missingHandle : LookupRequest → Option ExceptionData
  | getFederateName none => some HlaException.invalidFederateHandle.bare
  | getObjectClassName none =>
    some (HlaException.invalidObjectClassHandle.because "missing handle")
  | getAttributeHandle none _ =>
    some (HlaException.invalidObjectClassHandle.because "missing handle")
  | getAttributeName (some _) (some _) => none
  | getAttributeName _ _ =>
    some (HlaException.invalidObjectClassHandle.because "missing handle(s)")
  | getInteractionClassName none =>
    some (HlaException.invalidInteractionClassHandle.because "missing handle")
  | getParameterHandle none _ =>
    some (HlaException.invalidInteractionClassHandle.because "missing handle")
  | getParameterName (some _) (some _) => none
  | getParameterName _ _ =>
    some (HlaException.invalidInteractionClassHandle.because "missing handle(s)")
  | _ => none

def Switches.get (s : Switches) : SwitchName → Bool
  | .advisory .objectClassRelevanceAdvisory => s.objectClassRelevanceAdvisory
  | .advisory .attributeRelevanceAdvisory => s.attributeRelevanceAdvisory
  | .advisory .attributeScopeAdvisory => s.attributeScopeAdvisory
  | .advisory .interactionRelevanceAdvisory => s.interactionRelevanceAdvisory
  | .advisory .conveyRegionDesignatorSets => s.conveyRegionDesignatorSets
  | .advisory .serviceReporting => s.serviceReporting
  | .advisory .exceptionReporting => s.exceptionReporting
  | .advisory .sendServiceReportsToFile => s.sendServiceReportsToFile
  | .fom .autoProvide => s.autoProvide
  | .fom .delaySubscriptionEvaluation => s.delaySubscriptionEvaluation
  | .fom .advisoriesUseKnownClass => s.advisoriesUseKnownClass
  | .fom .allowRelaxedDdm => s.allowRelaxedDdm
  | .fom .nonRegulatedGrant => s.nonRegulatedGrant

def encodeResignAction : ResignAction → Int32
  | .unconditionallyDivestAttributes => 0
  | .deleteObjects => 1
  | .cancelPendingOwnershipAcquisitions => 2
  | .deleteObjectsThenDivest => 3
  | .cancelThenDeleteThenDivest => 4
  | .noAction => 5

def lookupInstance (inst : WireField) : Except ExceptionData ObjectInstance := do
  let inst ← getOr (inst.bind decodeObjectInstance) HlaException.objectInstanceNotKnown.bare
  getOr (fed.objectInstances.lookup inst) HlaException.objectInstanceNotKnown.bare

def getObjectInstanceHandle (name : String) : Except ExceptionData Resp := do
  let instances := (c.env.instances.order fed.objectInstances.keys).filterMap fed.objectInstances.lookup
  let inst ← getOr (instances.find? fun i => i.name == name)
    (HlaException.objectInstanceNotKnown.because name)
  pure (.getObjectInstanceHandle inst.handle)

def getDimensionHandleSet (region : WireField) : Except ExceptionData Resp := do
  let rh ← getOr (region.bind decodeRegion) HlaException.invalidRegion.bare
  let r ← getOr (fed.regions.lookup rh) HlaException.invalidRegion.bare
  pure (.getDimensionHandleSet r.committed.keys)

def getFederateHandle (name : String) : Except ExceptionData Resp := do
  let e ← getOr ((fed.sessions c.env.federates).find? fun e => e.2.name == name)
    (HlaException.nameNotFound.because name)
  pure (.getFederateHandle e.2.handle)

def getFederateName (federate : WireField) : Except ExceptionData Resp := do
  let fh ← getOr (federate.bind decodeFederate) HlaException.invalidFederateHandle.bare
  let fs ← getOr (fed.federates.lookup fh) HlaException.invalidFederateHandle.bare
  pure (.getFederateName fs.name)

/-- The derived `Debug` text of a handle. -/
def debugHandle (type : String) (raw : UInt32) : String := type ++ "(" ++ toString raw ++ ")"

/-- The handle of an object class, and its definition. -/
def objectClassOf (cls : WireField) (undefined : ObjectClassHandle → ExceptionData) :
    Except ExceptionData (ObjectClassHandle × Omt.ObjectClassDef) := do
  let cls ← objectClassArg cls
  let d ← getOr (fed.fom.objectClassDef cls) (undefined cls)
  pure (cls, d)

def undefinedObjectClass (cls : ObjectClassHandle) : ExceptionData :=
  HlaException.invalidObjectClassHandle.because (debugHandle "ObjectClassHandle" cls.raw)

def getAttributeHandle (cls : WireField) (name : String) : Except ExceptionData Resp := do
  let cls ← objectClassOf fed cls undefinedObjectClass
  let attr ← getOr (fed.fom.attributeHandle cls.1 name) (HlaException.nameNotFound.because name)
  pure (.getAttributeHandle attr)

/-- The handle is looked for among the attributes the class itself defines. -/
def getAttributeName (cls attr : WireField) : Except ExceptionData Resp := do
  let handle ← objectClassArg cls
  let attr ← getOr (attr.bind decodeAttribute) HlaException.invalidAttributeHandle.bare
  let d ← getOr (fed.fom.objectClassDef handle) HlaException.invalidObjectClassHandle.bare
  let a ← getOr (d.attributes.find? fun a =>
      decide (fed.fom.attributeHandle handle a.name = some attr))
    (HlaException.attributeNotDefined.because (debugHandle "AttributeHandle" attr.raw))
  pure (.getAttributeName a.name)

/-- The handle of an interaction class, and its definition. -/
def interactionClassOf (cls : WireField) :
    Except ExceptionData (InteractionClassHandle × Omt.InteractionClassDef) := do
  let cls ← decodeInteractionOrErr cls
  let d ← getOr (fed.fom.interactionClassDef cls) HlaException.invalidInteractionClassHandle.bare
  pure (cls, d)

def getParameterHandle (cls : WireField) (name : String) : Except ExceptionData Resp := do
  let cls ← interactionClassOf fed cls
  let param ← getOr (fed.fom.parameterHandle cls.1 name) (HlaException.nameNotFound.because name)
  pure (.getParameterHandle param)

def getParameterName (cls param : WireField) : Except ExceptionData Resp := do
  let handle ← decodeInteractionOrErr cls
  let param ← getOr (param.bind decodeParameter) HlaException.invalidParameterHandle.bare
  let d ← getOr (fed.fom.interactionClassDef handle) HlaException.invalidInteractionClassHandle.bare
  let p ← getOr (d.parameters.find? fun p =>
      decide (fed.fom.parameterHandle handle p.name = some param))
    HlaException.interactionParameterNotDefined.bare
  pure (.getParameterName p.name)

/-- LBTS as a response has it: whether it is finite, and 0 when not. -/
def timeQueryReturn : Timestamp → Bool × ℚ
  | ⊤ => (false, 0)
  | (q : ℚ) => (true, q)

/-- The answer to a request that only reads. -/
def lookupResponse : LookupRequest → Except ExceptionData Resp
  | .getSwitch s => do
      let fs ← callerSession c fed
      pure (.getSwitch s (fs.switches.get s))
  | .getAutomaticResignDirective => do
      let fs ← callerSession c fed
      pure (.getAutomaticResignDirective (encodeResignAction fs.switches.automaticResignDirective))
  | .getObjectInstanceHandle name => getObjectInstanceHandle c fed name
  | .getObjectInstanceName inst => do
      let i ← lookupInstance fed inst
      pure (.getObjectInstanceName i.name)
  | .getKnownObjectClassHandle inst => do
      let i ← lookupInstance fed inst
      pure (.getKnownObjectClassHandle i.cls)
  | .getDimensionHandle name => do
      let d ← getOr (fed.fom.dimensionHandle name) (HlaException.nameNotFound.because name)
      pure (.getDimensionHandle d)
  | .getDimensionHandleSet region => getDimensionHandleSet fed region
  | .getFederateHandle name => getFederateHandle c fed name
  | .getFederateName federate => getFederateName fed federate
  | .getObjectClassHandle name => do
      let cls ← getOr (fed.fom.objectClassHandle name) (HlaException.nameNotFound.because name)
      pure (.getObjectClassHandle cls)
  | .getObjectClassName cls => do
      let cls ← objectClassOf fed cls undefinedObjectClass
      pure (.getObjectClassName cls.2.name)
  | .getAttributeHandle cls name => getAttributeHandle fed cls name
  | .getAttributeName cls attr => getAttributeName fed cls attr
  | .getInteractionClassHandle name => do
      let cls ← getOr (fed.fom.interactionClassHandle name) (HlaException.nameNotFound.because name)
      pure (.getInteractionClassHandle cls)
  | .getInteractionClassName cls => do
      let cls ← interactionClassOf fed cls
      pure (.getInteractionClassName cls.2.name)
  | .getParameterHandle cls name => getParameterHandle fed cls name
  | .getParameterName cls param => getParameterName fed cls param
  | .queryLogicalTime => do
      let fs ← callerSession c fed
      pure (.queryLogicalTime fs.time.currentTime)
  | .queryLookahead => do
      let fs ← callerSession c fed
      require (fs.time.isRegulating = true) HlaException.timeRegulationIsNotEnabled.bare
      pure (.queryLookahead fs.time.lookahead)
  | .queryLits => pure (.queryLits (timeQueryReturn fed.lbts).1 (timeQueryReturn fed.lbts).2)
  | .queryGalt => pure (.queryGalt (timeQueryReturn fed.lbts).1 (timeQueryReturn fed.lbts).2)

def serveLookup (r : LookupRequest) : Outcome :=
  match r.missingHandle with
  | some e => .reject fed e
  | none => .ofExcept fed do
      let response ← lookupResponse c fed r
      pure (.reply fed response [])

theorem serveLookup_confined (r : LookupRequest) :
    (serveLookup c fed r).Confined [] (fun _ => False) fed := by
  rw [serveLookup]
  split
  · exact .reject .refl
  · exact .ofExcept (.bind fun _ _ => .pure (.silent .refl))

/-! ## Reading nothing -/

def getOrderType (name : String) : Except ExceptionData Resp :=
  if name = "Receive" then .ok (.getOrderType 0)
  else if name = "TimeStamp" ∨ name = "TimestampOrder" then .ok (.getOrderType 1)
  else .error (HlaException.invalidOrderName.because name)

def getOrderName (orderType : Int32) : Except ExceptionData Resp :=
  if orderType = 0 then .ok (.getOrderName "Receive")
  else if orderType = 1 then .ok (.getOrderName "TimeStamp")
  else .error (HlaException.invalidOrderType.because (toString orderType))

def getTransportationTypeHandle (name : String) : Except ExceptionData Resp :=
  if name = "HLAreliable" then .ok (.getTransportationTypeHandle 1)
  else if name = "HLAbestEffort" then .ok (.getTransportationTypeHandle 2)
  else .error (HlaException.invalidTransportationName.because name)

def getTransportationTypeName (handle : WireField) : Except ExceptionData Resp := do
  let raw ← getOr (handle.bind decodeU32) HlaException.invalidTransportationTypeHandle.bare
  if raw = 1 then .ok (.getTransportationTypeName "HLAreliable")
  else if raw = 2 then .ok (.getTransportationTypeName "HLAbestEffort")
  else .error (HlaException.invalidTransportationTypeHandle.because (toString raw))

/-- A handle as a number, 0 when it does not decode. -/
def normalizeHandle (kind : NormalizeKind) (raw : Option UInt32) : Except ExceptionData Resp :=
  .ok (.normalize kind (raw.getD 0))

def statelessResponse : StatelessRequest → Except ExceptionData Resp
  | .noOp s => .ok (.noOp s)
  | .getDimensionName dimension => do
      let raw ← getOr (dimension.bind decodeU32) HlaException.invalidDimensionHandle.bare
      pure (.getDimensionName ("Dim" ++ toString raw))
  | .getDimensionUpperBound => .ok (.getDimensionUpperBound 0xFFFFFFFF)
  | .getAvailableDimensionsForObjectClass => .ok (.getAvailableDimensionsForObjectClass [])
  | .getAvailableDimensionsForInteractionClass =>
    .ok (.getAvailableDimensionsForInteractionClass [])
  | .getOrderType name => getOrderType name
  | .getOrderName orderType => getOrderName orderType
  | .getTransportationTypeHandle name => getTransportationTypeHandle name
  | .getTransportationTypeName handle => getTransportationTypeName handle
  | .normalizeServiceGroup serviceGroup =>
    .ok (.normalize .serviceGroup serviceGroup.toUInt32)
  | .normalizeFederateHandle h => normalizeHandle .federateHandle (h.bind decodeU32)
  | .normalizeObjectClassHandle h => normalizeHandle .objectClassHandle (h.bind decodeU32)
  | .normalizeInteractionClassHandle h => normalizeHandle .interactionClassHandle (h.bind decodeU32)
  -- an instance handle has 64 bits, of which the low half is kept
  | .normalizeObjectInstanceHandle h =>
    normalizeHandle .objectInstanceHandle ((h.bind decodeU64).map UInt64.toUInt32)

end Hla4
