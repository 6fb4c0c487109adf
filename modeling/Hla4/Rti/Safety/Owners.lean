/-
# `Hla4.Rti.Safety.Owners` — who owns an attribute

An attribute of an instance has an owner or none (`Federation.owner`).  The
owner loses it by its own call, or with the instance: by deletion, when a new
registration is given the instance's handle, or when a restore replaces all
instances.  No call of another federate takes it (`FedAction.KeepsOwners`).

Since an update is accepted only from the owner of every attribute it names,
no two federates can both have updates of one attribute accepted in one state.
-/
import Hla4.Rti.Node

namespace Hla4

open Lib

/-- The owner of an attribute of a registered instance. -/
def Federation.owner (fed : Federation) (i : ObjectInstanceHandle) (a : AttributeHandle) :
    Option FederateHandle :=
  (fed.objectInstances.lookup i).bind (·.attributeOwners.lookup a)

/-- The handle a registration gave out. -/
def Resp.registered? : Resp → Option ObjectInstanceHandle
  | registerObjectInstance _ handle => some handle
  | _ => none

namespace FedAction

/-- The federate whose call it is. -/
def caller? : FedAction → Option FederateHandle
  | create _ _ => none
  | join _ _ => none
  | leave h => some h
  | serve c _ => some c.federate

/-- The handle under which the action registers a new instance, if it does. -/
def registered? (fed : Federation) : FedAction → Option ObjectInstanceHandle
  | serve c req => (Hla4.serve c fed req).response.registered?
  | _ => none

/-- An action takes no attribute from a federate other than the caller: if the
instance is still registered afterwards, and not a new one under its handle,
its owner is who it was. -/
def KeepsOwners (fed : Federation) (a : FedAction) : Prop :=
  ∀ i attr f, fed.owner i attr = some f → a.caller? ≠ some f → a.restores = false →
    i ∈ (a.apply fed).objectInstances → a.registered? fed ≠ some i →
    (a.apply fed).owner i attr = some f

end FedAction

variable {c : Caller} {fed fed' : Federation} {i : ObjectInstance} {req : ServiceRequest}
  {inst : ObjectInstanceHandle}

/-- What a call of `g` that registers `fresh` may do to the owners. -/
def Federation.OwnersKept (g : FederateHandle) (fresh : Option ObjectInstanceHandle)
    (fed fed' : Federation) : Prop :=
  ∀ i attr f, fed.owner i attr = some f → f ≠ g → i ∈ fed'.objectInstances → fresh ≠ some i →
    fed'.owner i attr = some f

/-! ## What a call does to the instances -/

/-- What a call of `g` can do to the registered instances, with the handle it
gives out; `fed'` is the federation it leaves. -/
inductive Federation.InstanceEffect (g : FederateHandle) (fed fed' : Federation) :
    Option ObjectInstanceHandle → Prop
  | same {fresh : Option ObjectInstanceHandle}
      (h : fed'.objectInstances = fed.objectInstances) : InstanceEffect g fed fed' fresh
  | removes (inst : ObjectInstanceHandle)
      (h : fed'.objectInstances = fed.objectInstances.erase inst) : InstanceEffect g fed fed' none
  | registers (inst : ObjectInstanceHandle) (i : ObjectInstance)
      (hmine : ∀ attr f, i.attributeOwners.lookup attr = some f → f = g)
      (h : ∀ k, fed'.objectInstances.lookup k =
        if k = inst then some i else fed.objectInstances.lookup k) :
      InstanceEffect g fed fed' (some inst)
  /-- attributes the caller owned, or nobody, change between the two -/
  | reowns (inst : ObjectInstanceHandle) (i : ObjectInstance)
      (owners : HashMap AttributeHandle FederateHandle)
      (hi : fed.objectInstances.lookup inst = some i)
      (hlose : ∀ attr f, i.attributeOwners.lookup attr = some f → f ≠ g →
        owners.lookup attr = some f)
      (hgain : ∀ attr f, owners.lookup attr = some f → f = g ∨
        i.attributeOwners.lookup attr = some f)
      (h : fed'.objectInstances = (fed.setOwners inst owners).objectInstances) :
      InstanceEffect g fed fed' none

namespace Federation

variable {g : FederateHandle} {fresh : Option ObjectInstanceHandle}

theorem InstanceEffect.of_touches {ps : List Part} (h : fed.Touches ps fed')
    (hp : Part.instances ∉ ps) : InstanceEffect g fed fed' fresh :=
  .same (h .instances hp)

theorem owner_setOwners {owners : HashMap AttributeHandle FederateHandle}
    (hi : fed.objectInstances.lookup inst = some i) (k : ObjectInstanceHandle)
    (attr : AttributeHandle) :
    (fed.setOwners inst owners).owner k attr =
      if k = inst then owners.lookup attr else fed.owner k attr := by
  show ((fed.objectInstances.modify inst _).lookup k).bind _ = _
  rw [HashMap.lookup_modify]
  split
  · rw [hi]
    rfl
  · rfl

theorem owner_eq_of_instances (h : fed'.objectInstances = fed.objectInstances)
    (k : ObjectInstanceHandle) (attr : AttributeHandle) : fed'.owner k attr = fed.owner k attr := by
  rw [owner, h]
  rfl

theorem owner_of_registers (h : ∀ k, fed'.objectInstances.lookup k =
      if k = inst then some i else fed.objectInstances.lookup k) (k : ObjectInstanceHandle)
    (attr : AttributeHandle) :
    fed'.owner k attr = if k = inst then i.attributeOwners.lookup attr else fed.owner k attr := by
  rw [owner, h]
  split <;> rfl

theorem InstanceEffect.keeps (h : InstanceEffect g fed fed' fresh) :
    fed.OwnersKept g fresh fed' := by
  intro k attr f hk hne hmem hfresh
  cases h with
  | same h => exact (owner_eq_of_instances h k attr).trans hk
  | removes inst h =>
    have hki : k ≠ inst := by
      rintro rfl
      rw [h] at hmem
      exact (AList.mem_erase.mp hmem).1 rfl
    rw [owner, h, HashMap.lookup_erase_eq, if_neg hki]
    exact hk
  | registers inst i _ h =>
    have hki : k ≠ inst := fun he => hfresh (congrArg some he.symm)
    rw [owner_of_registers h, if_neg hki]
    exact hk
  | reowns inst i owners hi hlose _ h =>
    rw [owner_eq_of_instances h, owner_setOwners hi]
    split
    · next hki =>
        rw [owner, hki, hi] at hk
        exact hlose attr f hk hne
    · exact hk

theorem InstanceEffect.gives (h : InstanceEffect g fed fed' fresh) {k : ObjectInstanceHandle}
    {attr : AttributeHandle} {f : FederateHandle} (hk : fed'.owner k attr = some f) :
    f = g ∨ fed.owner k attr = some f := by
  cases h with
  | same h => exact .inr ((owner_eq_of_instances h k attr).symm.trans hk)
  | removes inst h =>
    rw [owner, h, HashMap.lookup_erase_eq] at hk
    split at hk
    · cases hk
    · exact .inr hk
  | registers inst i hmine h =>
    rw [owner_of_registers h] at hk
    split at hk
    · exact .inl (hmine attr f hk)
    · exact .inr hk
  | reowns inst i owners hi _ hgain h =>
    rw [owner_eq_of_instances h, owner_setOwners hi] at hk
    split at hk
    · next hki =>
        refine (hgain attr f hk).imp_right fun hold => ?_
        rw [owner, hki, hi]
        exact hold
    · exact .inr hk

end Federation

/-! ## One call -/

/-- What an outcome does to the owners, given the handle it gives out. -/
def Outcome.KeepsOwners (c : Caller) (fed : Federation) (o : Outcome) : Prop :=
  fed.OwnersKept c.federate o.response.registered? o.federation

/-- The effect of a call on the instances. -/
def Outcome.Instances (c : Caller) (fed : Federation) (o : Outcome) : Prop :=
  fed.InstanceEffect c.federate o.federation o.response.registered?

theorem serveOwnership_instances (r : OwnershipRequest) : (serveOwnership c fed r).Instances c fed := by
  have hrej : ∀ e, (Outcome.reject fed e).Instances c fed := fun _ => .same rfl
  cases r with
  | isAttributeOwnedByFederate | queryAttributeOwnership =>
    exact Outcome.ofExcept_of hrej (.bind fun _ _ => .bind fun _ _ => .bind fun _ _ =>
      .pure (.same rfl))
  | attributeOwnershipDivestiture form inst attrs =>
    refine Outcome.ofExcept_of hrej (.bind fun inst _ => .bind fun attrs _ => .bind fun i hi =>
      .pure (.reowns inst i _ (getOr_eq_ok.mp hi) ?_ ?_ rfl))
    · intro attr f hown hne
      -- only the caller's own attributes are given up
      rw [HashMap.lookup_foldl_erase, if_neg, hown]
      intro hmem
      have hmine := of_decide_eq_true (List.mem_filter.mp hmem).2
      exact hne (Option.some.inj (hown.symm.trans hmine))
    · intro attr f hown
      rw [HashMap.lookup_foldl_erase] at hown
      split at hown
      · cases hown
      · exact .inr hown
  | attributeOwnershipAcquisition ifAvailable inst attrs =>
    refine Outcome.ofExcept_of hrej (.bind fun inst _ => .bind fun attrs _ => .bind fun i hi =>
      .pure (.reowns inst i _ (getOr_eq_ok.mp hi) ?_ ?_ rfl))
    · intro attr f hown _
      -- only attributes without an owner are taken
      rw [HashMap.lookup_foldl_insert, if_neg, hown]
      intro hmem
      exact of_decide_eq_true (List.mem_filter.mp hmem).2 (HashMap.mem_of_lookup hown)
    · intro attr f hown
      rw [HashMap.lookup_foldl_insert] at hown
      split at hown
      · exact .inl (Option.some.inj hown).symm
      · exact .inr hown

theorem registered_owners {attrs : List AttributeHandle} {attr : AttributeHandle} {f : FederateHandle}
    (h : AList.lookup attr (attrs.foldl (fun owners attr => AList.insert attr c.federate owners)
      (∅ : HashMap AttributeHandle FederateHandle)) = some f) : f = c.federate := by
  rw [HashMap.lookup_foldl_insert] at h
  split at h
  · exact (Option.some.inj h).symm
  · cases h

theorem registerObjectInstance_instances {cls : WireField} {name : Option String} :
    fed.InstanceEffect c.federate (registerObjectInstance c fed cls name).federation
      (registerObjectInstance c fed cls name).result.toOption := by
  rw [registerObjectInstance]
  split
  · exact .same rfl
  · dsimp only
    split
    · exact .same rfl
    · exact .registers _ _ (fun _ _ => registered_owners) fun k => HashMap.lookup_insert_eq ..

theorem registerObjectInstanceWithRegions_instances {cls : WireField} {name : Option String}
    {pairs : WireRegionPairs} :
    fed.InstanceEffect c.federate (registerObjectInstanceWithRegions c fed cls name pairs).federation
      (registerObjectInstanceWithRegions c fed cls name pairs).result.toOption := by
  rw [registerObjectInstanceWithRegions, registerObjectInstance]
  cases hargs : registrationArgs c fed cls with
  | error => exact .same rfl
  | ok args =>
    obtain ⟨cls, fs⟩ := args
    dsimp only
    split_ifs
    · exact .same rfl
    · -- the regions go to the instance just registered
      exact .registers _ _ (fun _ _ => registered_owners) fun k => HashMap.lookup_modify_insert ..

theorem Registration.instances {r : Registration} {form : RegisterForm}
    (h : fed.InstanceEffect c.federate r.federation r.result.toOption) :
    (r.outcome form).Instances c fed := by
  rw [Registration.outcome]
  cases hr : r.result with
  | ok | error =>
    rw [hr] at h
    exact h

theorem serveObject_instances (r : ObjectRequest) : (serveObject c fed r).Instances c fed := by
  cases r with
  | registerObjectInstance | registerObjectInstanceWithName =>
    exact Registration.instances registerObjectInstance_instances
  | registerObjectInstanceWithRegions | registerObjectInstanceWithNameAndRegions =>
    exact Registration.instances registerObjectInstanceWithRegions_instances
  | _ =>
    exact serveObject_unregistered (Q := Outcome.Instances c fed) (fun _ h => .same h)
      (fun _ _ _ inst h => .removes inst h) rfl

/-- **What a call does to the instances.** -/
theorem serve_instances (hr : (FedAction.serve c req).restores = false) :
    (serve c fed req).Instances c fed := by
  cases req with
  | object r => exact serveObject_instances r
  | ownership r => exact serveOwnership_instances r
  | saveRestore => exact .of_touches (serveSaveRestore_records hr).touches (by decide)
  | _ => exact .of_touches (serve_footprint _) (by simp [ServiceRequest.parts])

theorem serve_keepsOwners (hr : (FedAction.serve c req).restores = false) :
    (serve c fed req).KeepsOwners c fed :=
  Federation.InstanceEffect.keeps (serve_instances hr)

theorem FedAction.keepsOwners {a : FedAction} (ha : ∀ name fom, a ≠ .create name fom) :
    a.KeepsOwners fed := by
  intro i attr f hown hcaller hres hmem hfresh
  cases a with
  | create name fom => exact absurd rfl (ha name fom)
  | join requested sessionId =>
    have hsame : (fed.join requested sessionId).1.objectInstances = fed.objectInstances :=
      fed.join_view requested sessionId (p := .instances) (by simp) (by simp)
    rw [FedAction.apply, Federation.owner, hsame]
    exact hown
  | leave => exact hown
  | serve =>
    exact serve_keepsOwners hres i attr f hown (fun he => hcaller (congrArg some he.symm)) hmem
      hfresh

/-! ## Updates -/

namespace ServiceRequest

/-- The instance and the values of an update. -/
def update? : ServiceRequest → Option (WireField × WireValueMap)
  | object (.updateAttributeValues inst values _) => some (inst, values)
  | object (.updateAttributeValuesWithTime inst values _ _) => some (inst, values)
  | _ => none

/-- The request is an update of instance `i` that names attribute `a`. -/
def Names (req : ServiceRequest) (i : ObjectInstanceHandle) (a : AttributeHandle) : Prop :=
  ∃ inst values vs, req.update? = some (inst, values) ∧ inst.bind decodeObjectInstance = some i ∧
    decodeAttributeValueMap values = .ok vs ∧ a ∈ vs

end ServiceRequest

theorem owner_of_ownedInstance {attrs : List AttributeHandle}
    (h : ownedInstance c fed inst attrs = .ok i) {a : AttributeHandle} (ha : a ∈ attrs) :
    fed.owner inst a = some c.federate := by
  obtain ⟨i', hi', h⟩ := bind_eq_ok.mp h
  obtain ⟨_, hall, _⟩ := bind_eq_ok.mp h
  rw [Federation.owner, getOr_eq_ok.mp hi']
  exact require_eq_ok.mp hall a ha

theorem owner_of_accepted (hacc : (serve c fed req).response.accepted = true)
    {i : ObjectInstanceHandle} {a : AttributeHandle} (hn : req.Names i a) :
    fed.owner i a = some c.federate := by
  obtain ⟨inst, values, vs, hreq, hi, hvs, ha⟩ := hn
  cases req with
  | object r =>
    cases r with
    | updateAttributeValues =>
      cases hreq
      obtain ⟨h, hh, ho⟩ := bind_eq_ok.mp (Outcome.ofExcept_accepted hacc)
      obtain ⟨vs', hvs', ho⟩ := bind_eq_ok.mp ho
      obtain ⟨_, howned, _⟩ := bind_eq_ok.mp ho
      cases hi.symm.trans (getOr_eq_ok.mp hh)
      cases hvs.symm.trans hvs'
      exact owner_of_ownedInstance howned (AList.mem_keys.mp ha)
    | updateAttributeValuesWithTime =>
      cases hreq
      obtain ⟨h, hh, ho⟩ := bind_eq_ok.mp (Outcome.ofExcept_accepted hacc)
      obtain ⟨vs', hvs', ho⟩ := bind_eq_ok.mp ho
      obtain ⟨_, _, ho⟩ := bind_eq_ok.mp ho
      obtain ⟨_, howned, _⟩ := bind_eq_ok.mp ho
      cases hi.symm.trans (getOr_eq_ok.mp hh)
      cases hvs.symm.trans hvs'
      exact owner_of_ownedInstance howned (AList.mem_keys.mp ha)
    | _ => cases hreq
  | _ => cases hreq

/-- **Exclusive ownership.**  Whatever the state of the node and whatever the
step, no attribute is taken from a federate by a call that is not its own, as
long as the instance stays registered and no restore is requested; an accepted
update names only attributes of the caller; so two federates cannot both have
updates of one attribute accepted in one state. -/
theorem Node.ownership_exclusive (n : Node) :
    (∀ e r a, n.action e = some (r, a) → (∀ name fom, a ≠ .create name fom) →
      a.KeepsOwners (n.heap r)) ∧
    ∀ r i attr c req, (serve c (n.heap r) req).response.accepted = true → req.Names i attr →
      (n.heap r).owner i attr = some c.federate ∧
      ∀ c' req', (serve c' (n.heap r) req').response.accepted = true → req'.Names i attr →
        c'.federate = c.federate := by
  refine ⟨fun _ _ _ _ hne => FedAction.keepsOwners hne, ?_⟩
  intro r i attr c req hacc hn
  have hown := owner_of_accepted hacc hn
  refine ⟨hown, ?_⟩
  intro c' req' hacc' hn'
  exact Option.some.inj ((owner_of_accepted hacc' hn').symm.trans hown)

end Hla4
