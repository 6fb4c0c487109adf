/-
# `Hla4.Rti.Safety.Discoverers` — who is told of an instance, and as what

Two handlers announce an instance (`toldOf_cases`):

    registration    to the subscribers of its class, without the caller
    update          to those of its recipients, without the caller, that have
                    not discovered the instance (`Offers`)

Both name the caller as the producing federate.  At a registration this is the
registrar.  At an update it is the owner of what is updated, who after a
transfer of ownership is another federate.  Two things follow.  The registrar
of an instance may be told of it (`registrars_never_discover_iff`); and a late
subscriber is told another producing federate than those before it
(`discoveries_agree_iff`).
-/
import Hla4.Rti.Safety.Audience
import Hla4.Rti.Safety.Discovery
import Hla4.Rti.Safety.Identity
import Hla4.Rti.Safety.Isolation

namespace Hla4

open Lib

/-- The instance a callback announces, with the class, the name and the producing
federate it gives. -/
def CallbackRequest.announces? : CallbackRequest → Option (ObjectInstanceHandle × InstanceIdentity)
  | discoverObjectInstance inst cls name producer => some (inst, ⟨cls, name, producer⟩)
  | _ => none

/-- What is announced to `f`. -/
def announced (f : FederateHandle) (callbacks : List OutboundCallback) :
    List (ObjectInstanceHandle × InstanceIdentity) :=
  (bodiesFor f callbacks).filterMap CallbackRequest.announces?

/-- The call tells `f` of instance `k`, as `id`. -/
def ToldOf (c : Caller) (fed : Federation) (req : ServiceRequest) (f : FederateHandle)
    (k : ObjectInstanceHandle) (id : InstanceIdentity) : Prop :=
  (k, id) ∈ announced f (serve c fed req).callbacks

/-- An accepted update of instance `k`, of which the federates `s` are told unless
they know it. -/
inductive Offers (c : Caller) (fed : Federation) :
    ServiceRequest → ObjectInstanceHandle → ObjectInstance → HashSet FederateHandle → Prop
  | untimed {inst : WireField} {values : WireValueMap} {tag : Bytes} {k : ObjectInstanceHandle}
      {vs : HashMap AttributeHandle Bytes} {i : ObjectInstance} :
      AcceptedUpdate c fed inst values k vs i →
      Offers c fed (.object (.updateAttributeValues inst values tag)) k i
        (updateRecipients c fed k i.cls vs.keys)
  | timed {inst : WireField} {values : WireValueMap} {tag : Bytes} {time : WireField}
      {k : ObjectInstanceHandle} {vs : HashMap AttributeHandle Bytes} {i : ObjectInstance} :
      AcceptedUpdate c fed inst values k vs i →
      (serve c fed (.object
        (.updateAttributeValuesWithTime inst values tag time))).response.accepted = true →
      Offers c fed (.object (.updateAttributeValuesWithTime inst values tag time)) k i
        (fed.subscribersForAttributes i.cls vs.keys (some c.federate))

/-- `f` is among them, does not know the instance, and is reached. -/
def Newcomer (c : Caller) (fed : Federation) (k : ObjectInstanceHandle)
    (s : HashSet FederateHandle) (f : FederateHandle) : Prop :=
  f ∈ fed.undiscovered s k ∧ (fed.recipient c f).isSome = true

section OneCall

variable {c : Caller} {fed : Federation} {req : ServiceRequest} {f : FederateHandle}
  {k : ObjectInstanceHandle} {i : ObjectInstance} {s : HashSet FederateHandle}
  {id : InstanceIdentity}

theorem mem_bodiesFor {l : List OutboundCallback} {body : CallbackRequest} :
    body ∈ bodiesFor f l ↔ ∃ cb ∈ l, cb.federate = some f ∧ cb.body = body := by
  simp [bodiesFor, and_assoc]

theorem announces?_eq_some {body : CallbackRequest} :
    body.announces? = some (k, id) ↔
      body = .discoverObjectInstance k id.cls id.name id.registrar := by
  constructor
  · intro h
    cases body <;> cases h
    rfl
  · rintro rfl
    rfl

theorem toldOf_iff_mem : ToldOf c fed req f k id ↔
    .discoverObjectInstance k id.cls id.name id.registrar ∈
      bodiesFor f (serve c fed req).callbacks := by
  rw [ToldOf, announced, List.mem_filterMap]
  simp only [announces?_eq_some, exists_eq_right]

/-! ## The announcements of a call -/

theorem mem_notifyDiscovery {inst : ObjectInstanceHandle} {cls : ObjectClassHandle} {name : String}
    {producer : FederateHandle} :
    .discoverObjectInstance k id.cls id.name id.registrar ∈
        bodiesFor f (notifyDiscovery c fed s inst cls name producer).2 ↔
      (k = inst ∧ id = ⟨cls, name, producer⟩) ∧ Newcomer c fed inst s f := by
  rw [notifyDiscovery]
  rw [Federation.bodiesFor_live, touches_discover.recipient_eq (by decide) (by decide), Newcomer]
  split
  · next hin =>
      rw [List.mem_singleton, and_iff_left hin, CallbackRequest.discoverObjectInstance.injEq]
      cases id
      rw [InstanceIdentity.mk.injEq]
  · next hout => exact iff_of_false List.not_mem_nil fun hin => hout hin.2

theorem Offers.instance (h : Offers c fed req k i s) : fed.objectInstances.lookup k = some i := by
  cases h with
  | untimed hu | timed hu => exact hu.instance

theorem not_announced {recipients : List Recipient} {body : CallbackRequest}
    (hbody : CallbackRequest.discoverObjectInstance k id.cls id.name id.registrar ≠ body) :
    .discoverObjectInstance k id.cls id.name id.registrar ∉ bodiesFor f (fanOut recipients body) := by
  rw [bodiesFor_fanOut]
  exact fun hmem => hbody (List.eq_of_mem_replicate hmem)

/-- **What an update announces.** -/
theorem Offers.toldOf_iff (h : Offers c fed req k i s) {k' : ObjectInstanceHandle} :
    ToldOf c fed req f k' id ↔
      (k' = k ∧ id = ⟨i.cls, i.name, c.federate⟩) ∧ Newcomer c fed k s f := by
  have subset : ∀ {s}, (notifySubscribersOfRegistrationSubset c fed k i.cls c.federate s) =
      notifyDiscovery c fed s k i.cls i.name c.federate := by
    intro s
    rw [notifySubscribersOfRegistrationSubset, h.instance]
  cases h with
  | untimed hu =>
    rw [toldOf_iff_mem, serve, serveObject, updateAttributeValues_eq hu]
    show _ ∈ bodiesFor f (_ ++ _) ↔ _
    rw [bodiesFor_append, List.mem_append, or_iff_left (not_announced CallbackRequest.noConfusion),
      subset]
    exact mem_notifyDiscovery
  | timed hu hacc =>
    obtain ⟨k₁, vs₁, i₁, stamp, hu₁, ho⟩ := updateAttributeValuesWithTime_eq hacc
    obtain ⟨rfl, rfl, rfl⟩ := hu.unique hu₁
    rw [toldOf_iff_mem, serve, serveObject, ho]
    show _ ∈ bodiesFor f (_ ++ _) ↔ _
    rw [bodiesFor_append, List.mem_append]
    refine (or_iff_left ?_).trans ?_
    · exact not_announced CallbackRequest.noConfusion
    · rw [subset]
      exact mem_notifyDiscovery

/-- What a registration announces, and not to the registrar. -/
theorem registerObjectInstance_discovers {cls : WireField} {requestedName : Option String}
    (h : .discoverObjectInstance k id.cls id.name id.registrar ∈
      bodiesFor f (registerObjectInstance c fed cls requestedName).callbacks) :
    registering c fed cls requestedName = some id ∧ k = fed.nextInstance ∧ f ≠ id.registrar := by
  rw [registerObjectInstance] at h
  rw [registering]
  cases hargs : registrationArgs c fed cls with
  | error =>
    rw [hargs] at h
    cases h
  | ok args =>
    obtain ⟨cls', fs⟩ := args
    rw [hargs] at h
    dsimp only [Except.toOption, Option.bind_some, Federation.generatedInstanceName] at h ⊢
    split_ifs at h ⊢ with huse
    · cases h
    · obtain ⟨⟨rfl, rfl⟩, hnew, _⟩ := mem_notifyDiscovery.mp h
      refine ⟨rfl, rfl, ?_⟩
      rw [Federation.undiscovered, HashSet.mem_filter, HashSet.mem_ofList, List.mem_flatMap] at hnew
      obtain ⟨⟨_, _, hf⟩, _⟩ := hnew
      exact of_decide_eq_true (List.mem_filter.mp hf).2

theorem registerObjectInstanceWithRegions_callbacks (cls : WireField) (requestedName : Option String)
    (pairs : WireRegionPairs) :
    (registerObjectInstanceWithRegions c fed cls requestedName pairs).callbacks =
      (registerObjectInstance c fed cls requestedName).callbacks := by
  rw [registerObjectInstanceWithRegions]
  split <;> rfl

theorem serveTime_toldOf (r : TimeRequest) : ¬ ToldOf c fed (.time r) f k id := by
  intro h
  obtain ⟨cb, hcb, _, hbody⟩ := mem_bodiesFor.mp (toldOf_iff_mem.mp h)
  rcases serveTime_cases c fed r with ⟨e, _, he⟩ | ⟨s, resp, own, _, hown, ⟨_, he⟩ | ⟨_, pass, hpass, he⟩⟩
  · rw [serve, he] at hcb
    cases hcb
  · rw [serve, he] at hcb
    have htopic : cb.body.topic = .time := (hown cb hcb).2
    rw [hbody] at htopic
    cases htopic
  · rw [serve, he] at hcb
    rcases List.mem_append.mp hcb with hcb | hcb
    · have htopic : cb.body.topic = .time := (hown cb hcb).2
      rw [hbody] at htopic
      cases htopic
    · rcases hpass.callbacks cb hcb with ⟨g, _, hgrant, _⟩ | ⟨_, _, m, _, _, _, hmsg, _⟩
      · rw [hbody] at hgrant
        cases hgrant
      · have hstamp := m.stamped
        rw [← hmsg, hbody] at hstamp
        cases hstamp

theorem not_toldOf_of_topic (ht : CallbackTopic.object ∉ req.topics) :
    ¬ ToldOf c fed req f k id := by
  intro h
  obtain ⟨cb, hcb, _, hbody⟩ := mem_bodiesFor.mp (toldOf_iff_mem.mp h)
  have htopic := serve_topics req cb hcb
  rw [hbody] at htopic
  exact ht htopic

theorem Offers.of_toldOf {r : ObjectRequest} (h : ToldOf c fed (.object r) f k id)
    (hr : (ServiceRequest.object r).registration? = none) : ∃ i s, Offers c fed (.object r) k i s := by
  obtain ⟨cb, hcb, _, hbody⟩ := mem_bodiesFor.mp (toldOf_iff_mem.mp h)
  have hcb : cb ∈ (serveObject c fed r).callbacks := hcb
  -- the services that send other callbacks only
  have other : ∀ {x}, serveObject c fed r = .ofExcept fed x →
      Yields x (fun o => ∀ cb ∈ o.callbacks,
        cb.body ≠ .discoverObjectInstance k id.cls id.name id.registrar) → False := by
    intro x hx hy
    refine Outcome.ofExcept_of (Q := fun o => ∀ cb ∈ o.callbacks, _) ?_ hy cb (hx ▸ hcb) hbody
    exact fun _ => List.forall_mem_nil _
  cases r with
  | updateAttributeValues =>
    obtain ⟨k', vs, i, hu⟩ := AcceptedUpdate.of_callback hcb
    obtain ⟨⟨rfl, _⟩, _⟩ := (Offers.untimed hu).toldOf_iff.mp h
    exact ⟨i, _, .untimed hu⟩
  | updateAttributeValuesWithTime inst values tag time =>
    have hacc : (serveObject c fed
        (.updateAttributeValuesWithTime inst values tag time)).response.accepted = true := by
      by_contra hrej
      rw [((serveObject_orderly _).checksFirst (Bool.eq_false_iff.mpr hrej)).callbacks] at hcb
      cases hcb
    obtain ⟨k', vs, i, _, hu, _⟩ := updateAttributeValuesWithTime_eq hacc
    obtain ⟨⟨rfl, _⟩, _⟩ := (Offers.timed hu hacc).toldOf_iff.mp h
    exact ⟨i, _, .timed hu hacc⟩
  | sendInteraction =>
    exact (other rfl (.bind fun _ _ => .pure
      (@forall_fanOut (· ≠ _) _ _ CallbackRequest.noConfusion))).elim
  | sendInteractionWithTime | deleteObjectInstance =>
    exact (other rfl (.bind fun _ _ => .bind fun _ _ => .pure
      (@forall_fanOut (· ≠ _) _ _ CallbackRequest.noConfusion))).elim
  | deleteObjectInstanceWithTime =>
    exact (other rfl (.bind fun _ _ => .bind fun _ _ => .bind fun _ _ => .pure
      (@forall_fanOut (· ≠ _) _ _ CallbackRequest.noConfusion))).elim
  | localDeleteObjectInstance =>
    exact (other rfl (.bind fun _ _ => .pure (List.forall_mem_nil _))).elim
  | _ => cases hr

/-- **Who announces an instance.** -/
theorem toldOf_cases (h : ToldOf c fed req f k id) :
    ((FedAction.serve c req).registers fed = some id ∧ k = fed.nextInstance ∧ f ≠ id.registrar) ∨
      ∃ i s, Offers c fed req k i s := by
  have registers : ∀ {reg : Registration} {form}, .discoverObjectInstance k id.cls id.name id.registrar ∈
      bodiesFor f (reg.outcome form).callbacks →
      .discoverObjectInstance k id.cls id.name id.registrar ∈ bodiesFor f reg.callbacks := by
    intro reg form hmem
    rw [Registration.outcome] at hmem
    split at hmem
    · exact hmem
    · cases hmem
  have hmem := toldOf_iff_mem.mp h
  cases req with
  | object r =>
    cases r with
    | registerObjectInstance | registerObjectInstanceWithName =>
      exact .inl (registerObjectInstance_discovers (registers hmem))
    | registerObjectInstanceWithRegions | registerObjectInstanceWithNameAndRegions =>
      have hmem := registers hmem
      rw [registerObjectInstanceWithRegions_callbacks] at hmem
      exact .inl (registerObjectInstance_discovers hmem)
    | _ => exact .inr (Offers.of_toldOf h rfl)
  | time r => exact absurd h (serveTime_toldOf r)
  | _ => exact absurd h (not_toldOf_of_topic (by simp [ServiceRequest.topics]))

theorem Offers.registers (h : Offers c fed req k i s) :
    (FedAction.serve c req).registers fed = none := by
  cases h <;> rfl

theorem Offers.identity (h : Offers c fed req k i s) :
    (serve c fed req).federation.identity k = some i.identity := by
  have hsame : (serve c fed req).federation.objectInstances = fed.objectInstances := by
    cases h with
    | untimed hu =>
      rw [serve, serveObject, updateAttributeValues_eq hu]
      exact touches_notifySubset .instances (by decide)
    | timed hu hacc =>
      obtain ⟨_, _, _, _, _, ho⟩ := updateAttributeValuesWithTime_eq hacc
      rw [serve, serveObject, ho]
      exact (touches_route (c := c) .instances (by decide)).trans
        (touches_notifySubset .instances (by decide))
  rw [Federation.identity, hsame, h.instance]
  rfl

/-- The caller is never a newcomer to what it updates. -/
theorem Offers.ne_caller (h : Offers c fed req k i s) (hnew : Newcomer c fed k s f) :
    f ≠ c.federate := by
  obtain ⟨r, hr⟩ := Option.isSome_iff_exists.mp hnew.2
  obtain ⟨_, fs, hfs, _⟩ := Federation.recipient_eq_some.mp hr
  have hmem := ((mem_undiscovered hfs).mp hnew.1).1
  cases h with
  | untimed hu => exact ((mem_updateRecipients hu.instance hfs).mp hmem).1.1
  | timed => exact (mem_subscribersForUpdate.mp hmem).1

end OneCall

/-! ## The registrar -/

namespace FedAction

/-- Nobody is told of an instance of its own. -/
def TellsNoRegistrar (fed : Federation) : FedAction → Prop
  | serve c req => ∀ f k id, ToldOf c fed req f k id →
      ∀ now, (Hla4.serve c fed req).federation.identity k = some now → f ≠ now.registrar
  | _ => True

/-- The registrar of an instance that another federate updates is not a newcomer
to it. -/
def SparesRegistrar (fed : Federation) : FedAction → Prop
  | serve c req => ∀ k i s, Offers c fed req k i s → i.registrar ≠ c.federate →
      ¬ Newcomer c fed k s i.registrar
  | _ => True

theorem tellsNoRegistrar_iff {fed : Federation} {a : FedAction} :
    a.TellsNoRegistrar fed ↔ a.SparesRegistrar fed := by
  cases a with
  | serve c req =>
    constructor
    · intro h k i s ho _ hnew
      refine h i.registrar k _ (ho.toldOf_iff.mpr ⟨⟨rfl, rfl⟩, hnew⟩) i.identity ho.identity ?_
      rfl
    · intro h f k id hd now hnow hf
      rcases toldOf_cases hd with ⟨hreg, rfl, hne⟩ | ⟨i, s, ho⟩
      · -- the instance is the one just registered
        have hres : (FedAction.serve c req).restores = false := by
          by_contra hres
          rw [registers_of_restores (Bool.eq_true_of_not_eq_false hres)] at hreg
          cases hreg
        have heffect : fed.IdentityEffect _ _ := FedAction.identities hres
        rw [hreg] at heffect
        cases hnow.symm.trans ((heffect _).trans (if_pos rfl))
        exact hne hf
      · cases hnow.symm.trans ho.identity
        subst hf
        have hnew := (ho.toldOf_iff.mp hd).2
        exact h k i s ho (ho.ne_caller hnew) hnew
  | _ => exact Iff.rfl

end FedAction

/-- **A registrar never discovers its own instance**, exactly in the runs in which
no update by another federate finds it a newcomer. -/
theorem registrars_never_discover_iff (es : List NodeEvent) :
    StepsMeet Node.step (Node.Meets fun fed a => a.TellsNoRegistrar fed) Node.new es ↔
      StepsMeet Node.step (Node.Meets fun fed a => a.SparesRegistrar fed) Node.new es := by
  constructor
  · exact fun h => h.mono fun n e hok ra ha => FedAction.tellsNoRegistrar_iff.mp (hok ra ha)
  · exact fun h => h.mono fun n e hok ra ha => FedAction.tellsNoRegistrar_iff.mpr (hok ra ha)

/-- Federate 1 registers an instance and gives it up, federate 2 takes it over,
and federate 1 subscribes. -/
def registrarSubscribes : List NodeEvent := pairJoined ++
  [.serves 0 (.declaration (.publishObjectClassAttributes (wire32 1) (some [[0, 0, 0, 1]]))),
    .serves 0 (.object (.registerObjectInstance (wire32 1))),
    .serves 0 (.ownership (.attributeOwnershipDivestiture .unconditional (wire64 1)
      (some [[0, 0, 0, 1]]))),
    .serves 1 (.ownership (.attributeOwnershipAcquisition true (wire64 1)
      (some [[0, 0, 0, 1]]) [])),
    .serves 0 (.declaration (.subscribeObjectClassAttributes .plain (wire32 1)
      (some [[0, 0, 0, 1]])))]

/-- **A registrar discovers its own instance**, when federate 2 updates it. -/
theorem registrar_discovers :
    let n := run Node.step Node.new registrarSubscribes
    let o := n.outcome 1 .plain (.service (.object
      (.updateAttributeValues (wire64 1) (some [(wire32 1, [])]) [])))
    o.bind (fun o => (o.node.heap 0).identity ⟨1⟩) = some ⟨⟨1⟩, "HLA1", ⟨1⟩⟩ ∧
      o.map (fun o => announced ⟨1⟩ o.callbacks) = some [(⟨1⟩, ⟨⟨1⟩, "HLA1", ⟨2⟩⟩)] := by
  decide +kernel

/-! ## Agreement -/

/-- History: what the instances of a federation were registered as. -/
abbrev Registrations := ObjectInstanceHandle → Option InstanceIdentity

def recordRegistration (fed : Federation) : FedAction → Registrations → Registrations
  | .create _ _, _ => fun _ => none
  | .join _ _, g => g
  | .leave _, g => g
  | .serve c req, g =>
    match (FedAction.serve c req).registers fed with
    | none => g
    | some id => Function.update g fed.nextInstance (some id)

namespace FedAction

/-- Whoever is told of an instance is told what it was registered as. -/
def DiscoversAsRegistered (fed : Federation) (g : Registrations) : FedAction → Prop
  | serve c req => ∀ f k id, ToldOf c fed req f k id →
      recordRegistration fed (serve c req) g k = some id
  | _ => True

/-- An update by another federate than the registrar finds no newcomer. -/
def FindsNoNewcomer (fed : Federation) : FedAction → Prop
  | serve c req => ∀ k i s, Offers c fed req k i s → i.registrar ≠ c.federate →
      ∀ f, ¬ Newcomer c fed k s f
  | _ => True

end FedAction

/-- The instances there are were registered as what they are. -/
def Federation.AsRegistered (fed : Federation) (g : Registrations) : Prop :=
  ∀ k id, fed.identity k = some id → g k = some id

section Agreement

variable {fed : Federation} {g : Registrations} {a : FedAction}

theorem Federation.AsRegistered.apply (h : fed.AsRegistered g) (hr : a.restores = false) :
    (a.apply fed).AsRegistered (recordRegistration fed a g) := by
  have heffect : fed.IdentityEffect _ _ := a.identities hr
  cases a with
  | create => exact fun k id hid => (nomatch hid)
  | join | leave => exact fun k id hid => h k id (heffect k id hid)
  | serve c req =>
    intro k id hid
    rw [recordRegistration]
    cases hreg : (FedAction.serve c req).registers fed with
    | none =>
      rw [hreg] at heffect
      exact h k id (heffect k id hid)
    | some new =>
      rw [hreg] at heffect
      rw [heffect k] at hid
      show Function.update g fed.nextInstance (some new) k = some id
      rw [Function.update_apply]
      split at hid
      · next hk => rw [if_pos hk, hid]
      · next hk => rw [if_neg hk, h k id hid]

theorem discoversAsRegistered_iff (h : fed.AsRegistered g) :
    a.DiscoversAsRegistered fed g ↔ a.FindsNoNewcomer fed := by
  cases a with
  | serve c req =>
    -- an update leaves the history as it is
    have known : ∀ {k i s}, Offers c fed req k i s →
        recordRegistration fed (.serve c req) g k = some i.identity := by
      intro k i s ho
      rw [recordRegistration, ho.registers]
      exact h k i.identity (congrArg (Option.map _) ho.instance)
    constructor
    · intro hd k i s ho hne f hnew
      have htold := hd f k _ (ho.toldOf_iff.mpr ⟨⟨rfl, rfl⟩, hnew⟩)
      rw [known ho] at htold
      exact hne (congrArg InstanceIdentity.registrar (Option.some.inj htold))
    · intro hnone f k id hd
      rcases toldOf_cases hd with ⟨hreg, rfl, _⟩ | ⟨i, s, ho⟩
      · rw [recordRegistration, hreg]
        exact Function.update_self ..
      · obtain ⟨⟨_, rfl⟩, hnew⟩ := ho.toldOf_iff.mp hd
        have hmine : i.registrar = c.federate := by
          by_contra hne
          exact hnone k i s ho hne f hnew
        rw [known ho, ← hmine]
        rfl
  | _ => exact Iff.rfl

end Agreement

/-- **All discoveries of an instance agree** with its registration, in a run
without a restore, exactly if no update by another federate than the registrar
finds a newcomer. -/
theorem discoveries_agree_iff {r : FedRef} {es : List NodeEvent}
    (h : StepsMeet Node.step (Node.MeetsAt r fun _ a => a.restores = false) Node.new es) :
    StepsMeet (logged Node.step (Node.track r recordRegistration))
        (Node.MeetsWith r fun fed g a => a.DiscoversAsRegistered fed g) (Node.new, fun _ => none) es ↔
      StepsMeet Node.step (Node.MeetsAt r fun fed a => a.FindsNoNewcomer fed) Node.new es := by
  refine Node.track_iff (I := Federation.AsRegistered) ?_ ?_ ?_ h
  · exact fun k id hid => (nomatch hid)
  · exact fun fed g a hinv hr => hinv.apply hr
  · exact fun fed g a hinv _ => discoversAsRegistered_iff hinv

/-- Federate 2 subscribes before the registration, and federate 1, the registrar,
updates the instance. -/
theorem discoveries_agree_iff_update :
    let es := pairUpdating ++ [.serves 0 (updateAt wireOne)]
    StepsMeet Node.step (Node.MeetsAt 0 fun _ a => a.restores = false) Node.new es ∧
      (StepsMeet (logged Node.step (Node.track 0 recordRegistration))
        (Node.MeetsWith 0 fun fed g a => a.DiscoversAsRegistered fed g) (Node.new, fun _ => none) es ↔
      StepsMeet Node.step (Node.MeetsAt 0 fun fed a => a.FindsNoNewcomer fed) Node.new es) := by
  intro es
  have hrun : StepsMeet Node.step (Node.MeetsAt 0 fun _ a => a.restores = false) Node.new es := by
    decide +kernel
  exact ⟨hrun, discoveries_agree_iff hrun⟩

/-- Federate 2 discovers the instance of federate 1 and takes it over; federate 3
joins and subscribes. -/
def ownerChanges : List NodeEvent := pairUpdating ++
  [.serves 0 (.ownership (.attributeOwnershipDivestiture .unconditional (wire64 1)
      (some [[0, 0, 0, 1]]))),
    .serves 1 (.ownership (.attributeOwnershipAcquisition true (wire64 1)
      (some [[0, 0, 0, 1]]) [])),
    .opens, .joins 2,
    .serves 2 (.declaration (.subscribeObjectClassAttributes .plain (wire32 1)
      (some [[0, 0, 0, 1]])))]

/-- **Two discoveries of one instance disagree.**  Federate 2 is told that federate 1
produces it; at the update by federate 2, federate 3 is told that federate 2
does. -/
theorem discoveries_disagree :
    let registers := (run Node.step Node.new (pairUpdating.dropLast)).outcome 0 .plain
      (.service (.object (.registerObjectInstance (wire32 1))))
    let updates := (run Node.step Node.new ownerChanges).outcome 1 .plain
      (.service (updateAt wireOne))
    registers.map (fun o => announced ⟨2⟩ o.callbacks) = some [(⟨1⟩, ⟨⟨1⟩, "HLA1", ⟨1⟩⟩)] ∧
      updates.map (fun o => announced ⟨3⟩ o.callbacks) = some [(⟨1⟩, ⟨⟨1⟩, "HLA1", ⟨2⟩⟩)] := by
  decide +kernel

end Hla4
