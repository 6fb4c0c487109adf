/-
# `Hla4.Rti.Safety.Identity` — what an instance is for as long as it is registered

The class, the name and the registrar of an instance are set at its
registration.  A call then either registers one instance, under the handle
`nextInstance` and with the identity `registering`, and leaves the identities of
the others alone; or it registers none, and whatever is still there afterwards
is who it was (`IdentityEffect`).  A restore is neither: it replaces all
instances by those of a snapshot.
-/
import Hla4.Rti.Node

namespace Hla4

open Lib

structure InstanceIdentity where
  cls : ObjectClassHandle
  name : String
  registrar : FederateHandle
deriving DecidableEq

def ObjectInstance.identity (i : ObjectInstance) : InstanceIdentity := ⟨i.cls, i.name, i.registrar⟩

namespace Federation

/-- The identity of a registered instance. -/
def identity (fed : Federation) (k : ObjectInstanceHandle) : Option InstanceIdentity :=
  (fed.objectInstances.lookup k).map ObjectInstance.identity

/-- The handle of the next registration. -/
def nextInstance (fed : Federation) : ObjectInstanceHandle := ⟨fed.nextObjectId⟩

/-- The name of an instance for which none is asked. -/
def generatedInstanceName (fed : Federation) : String := "HLA" ++ toString fed.nextObjectId

/-- What becomes of the identities when `id`, if any, is registered. -/
def IdentityEffect (fed fed' : Federation) : Option InstanceIdentity → Prop
  | none => ∀ k id, fed'.identity k = some id → fed.identity k = some id
  | some id => ∀ k, fed'.identity k = if k = fed.nextInstance then some id else fed.identity k

end Federation

/-- The class and the name a registration asks for. -/
def ServiceRequest.registration? : ServiceRequest → Option (WireField × Option String)
  | object (.registerObjectInstance cls) => some (cls, none)
  | object (.registerObjectInstanceWithName cls name) => some (cls, some name)
  | object (.registerObjectInstanceWithRegions cls _) => some (cls, none)
  | object (.registerObjectInstanceWithNameAndRegions cls name _) => some (cls, some name)
  | _ => none

/-- The identity that a registration gives, unless it is refused. -/
def registering (c : Caller) (fed : Federation) (cls : WireField) (requestedName : Option String) :
    Option InstanceIdentity :=
  (registrationArgs c fed cls).toOption.bind fun args =>
    let name := requestedName.getD fed.generatedInstanceName
    if requestedName.isSome ∧ ∃ i ∈ fed.objectInstances.values, i.name = name then none
    else some ⟨args.1, name, c.federate⟩

/-- The identity of the instance that the action registers. -/
def FedAction.registers (fed : Federation) : FedAction → Option InstanceIdentity
  | serve c req => req.registration?.bind fun asked => registering c fed asked.1 asked.2
  | _ => none

variable {c : Caller} {fed fed' : Federation}

/-! ## Registrations -/

theorem registering_eq_some {cls : WireField} {requestedName : Option String} {id : InstanceIdentity} :
    registering c fed cls requestedName = some id ↔
      ∃ cls' fs, registrationArgs c fed cls = .ok (cls', fs) ∧
        ¬ (requestedName.isSome ∧ ∃ i ∈ fed.objectInstances.values, i.name = id.name) ∧
        id = ⟨cls', requestedName.getD fed.generatedInstanceName, c.federate⟩ := by
  rw [registering]
  cases registrationArgs c fed cls with
  | error => simp [Except.toOption]
  | ok args =>
    dsimp only [Except.toOption, Option.bind_some]
    split_ifs with huse
    · constructor
      · intro h
        cases h
      · rintro ⟨cls', fs, _, hfree, rfl⟩
        exact absurd huse hfree
    · constructor
      · intro h
        cases h
        exact ⟨args.1, args.2, rfl, huse, rfl⟩
      · rintro ⟨cls', fs, hargs, _, rfl⟩
        cases hargs
        rfl

namespace Federation

theorem IdentityEffect.of_instances (h : fed'.objectInstances = fed.objectInstances) :
    fed.IdentityEffect fed' none := by
  intro k id hid
  rw [identity, h] at hid
  exact hid

theorem IdentityEffect.of_touches {ps : List Part} (h : fed.Touches ps fed')
    (hp : Part.instances ∉ ps) : fed.IdentityEffect fed' none :=
  .of_instances (h .instances hp)

theorem IdentityEffect.congr {fed'' : Federation} {id : Option InstanceIdentity}
    (h : fed.IdentityEffect fed' id) (heq : ∀ k, fed''.identity k = fed'.identity k) :
    fed.IdentityEffect fed'' id := by
  cases id with
  | none => exact fun k id hid => h k id ((heq k).symm.trans hid)
  | some => exact fun k => (heq k).trans (h k)

/-- Owners and regions are not part of an identity. -/
theorem identity_modify {inst : ObjectInstanceHandle} {f : ObjectInstance → ObjectInstance}
    (hf : ∀ i, (f i).identity = i.identity) (k : ObjectInstanceHandle) :
    identity { fed with objectInstances := fed.objectInstances.modify inst f } k =
      fed.identity k := by
  show ((fed.objectInstances.modify inst f).lookup k).map _ = _
  rw [HashMap.lookup_modify]
  split
  · next hk =>
      rw [hk, Option.map_map, identity]
      congr 1
      exact funext hf
  · rfl

theorem identityEffect_removes {inst : ObjectInstanceHandle}
    (h : fed'.objectInstances = fed.objectInstances.erase inst) : fed.IdentityEffect fed' none := by
  intro k id hid
  rw [identity, h, HashMap.lookup_erase_eq] at hid
  split at hid
  · cases hid
  · exact hid

end Federation

theorem registerObjectInstance_identity (cls : WireField) (requestedName : Option String) :
    fed.IdentityEffect (registerObjectInstance c fed cls requestedName).federation
      (registering c fed cls requestedName) := by
  rw [registerObjectInstance, registering]
  cases registrationArgs c fed cls with
  | error => exact .of_instances rfl
  | ok args =>
    obtain ⟨cls', fs⟩ := args
    dsimp only [Except.toOption, Option.bind_some, Federation.generatedInstanceName]
    split_ifs
    · exact .of_instances rfl
    · intro k
      refine (congrArg (Option.map _) (HashMap.lookup_insert_eq ..)).trans ?_
      exact apply_ite (Option.map _) ..

theorem registerObjectInstanceWithRegions_identity (cls : WireField) (requestedName : Option String)
    (pairs : WireRegionPairs) :
    fed.IdentityEffect (registerObjectInstanceWithRegions c fed cls requestedName pairs).federation
      (registering c fed cls requestedName) := by
  have hplain := @registerObjectInstance_identity c fed cls requestedName
  rw [registerObjectInstanceWithRegions]
  cases hr : (registerObjectInstance c fed cls requestedName).result with
  | error => exact hplain
  | ok => exact hplain.congr (Federation.identity_modify fun _ => rfl)

theorem Registration.federation_outcome (r : Registration) (form : RegisterForm) :
    (r.outcome form).federation = r.federation := by
  rw [Registration.outcome]
  split <;> rfl

/-! ## One call -/

/-- An outcome registers the identity, or none. -/
def Outcome.Identities (fed : Federation) (id : Option InstanceIdentity) (o : Outcome) : Prop :=
  fed.IdentityEffect o.federation id

theorem serveObject_identities (r : ObjectRequest) :
    (serveObject c fed r).Identities fed ((FedAction.serve c (.object r)).registers fed) := by
  have registers : ∀ {reg : Registration} {form id}, fed.IdentityEffect reg.federation id →
      (reg.outcome form).Identities fed id := by
    intro reg form id h
    rw [Outcome.Identities, Registration.federation_outcome]
    exact h
  cases r with
  | registerObjectInstance cls => exact registers (registerObjectInstance_identity cls none)
  | registerObjectInstanceWithName cls name =>
    exact registers (registerObjectInstance_identity cls (some name))
  | registerObjectInstanceWithRegions cls pairs =>
    exact registers (registerObjectInstanceWithRegions_identity cls none pairs)
  | registerObjectInstanceWithNameAndRegions cls name pairs =>
    exact registers (registerObjectInstanceWithRegions_identity cls (some name) pairs)
  | _ =>
    exact serveObject_unregistered (fun _ h => .of_instances h)
      (fun _ _ _ _ h => Federation.identityEffect_removes h) rfl

theorem serveOwnership_identities (r : OwnershipRequest) :
    (serveOwnership c fed r).Identities fed none := by
  have same : fed.IdentityEffect fed none := .of_instances rfl
  exact serveOwnership_sets (Q := Outcome.Identities fed none)
    (fun _ h => .of_instances (congrArg _ h))
    (fun _ _ _ _ => same.congr (Federation.identity_modify fun _ => rfl)) r

/-- **What a call does to the identities.** -/
theorem serve_identities {req : ServiceRequest} (hr : (FedAction.serve c req).restores = false) :
    (serve c fed req).Identities fed ((FedAction.serve c req).registers fed) := by
  cases req with
  | object r => exact serveObject_identities r
  | ownership r => exact serveOwnership_identities r
  | saveRestore => exact .of_touches (serveSaveRestore_records hr).touches (by decide)
  | _ => exact .of_touches (serve_footprint _) (by simp [ServiceRequest.parts])

theorem FedAction.identities {a : FedAction} (hr : a.restores = false) :
    fed.IdentityEffect (a.apply fed) (a.registers fed) := by
  cases a with
  | create => exact fun k id hid => (nomatch hid)
  | join requested sessionId =>
    exact .of_instances (fed.join_view requested sessionId (p := .instances) (by simp) (by simp))
  | leave => exact .of_instances rfl
  | serve => exact serve_identities hr

theorem FedAction.registers_of_restores {a : FedAction} (hr : a.restores = true) :
    a.registers fed = none := by
  cases a with
  | serve =>
    obtain ⟨label, rfl⟩ := eq_of_restores hr
    rfl
  | _ => cases hr

end Hla4
