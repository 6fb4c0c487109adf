/-
# `Hla4.Rti.Safety.InstanceNames` — the names of the registered instances

A registration asks for a name, or its instance is named after its handle.  A
name that is asked for is compared with those in use; one that is generated is
not:

    register "HLA2"     instance 1, named HLA2
    register            instance 2, named HLA2

A restore adds nothing to this: a snapshot holds the names of one federation at
one moment, so if the names were unique they are (`SnapshotsDistinct`).  Names
are therefore unique, and the two lookups between names and handles undo each
other, exactly in the runs in which every generated name is free
(`instance_names_unique_iff`).
-/
import Hla4.Rti.Safety.Identity
import Hla4.Rti.Safety.Snapshot
import Hla4.Rti.Safety.SnapshotFiles
import Hla4.Wire.Framing

namespace Hla4

open Lib

namespace Federation

variable {fed fed' : Federation}

/-- No two registered instances have the same name. -/
def DistinctInstanceNames (fed : Federation) : Prop :=
  ∀ k k' id id', fed.identity k = some id → fed.identity k' = some id' → id.name = id'.name → k = k'

/-- An instance other than the one under the next handle has the name. -/
def UsesInstanceName (fed : Federation) (name : String) : Prop :=
  ∃ k id, fed.identity k = some id ∧ k ≠ fed.nextInstance ∧ id.name = name

/-- Names stay distinct exactly if the name that is registered is free. -/
theorem DistinctInstanceNames.iff_of_effect (h : fed.DistinctInstanceNames)
    {id : Option InstanceIdentity} (he : fed.IdentityEffect fed' id) :
    fed'.DistinctInstanceNames ↔ ∀ i ∈ id, ¬ fed.UsesInstanceName i.name := by
  cases id with
  | none =>
    refine ⟨fun _ i hi => (nomatch hi), ?_⟩
    intro _ k k' i i' hk hk' hname
    exact h k k' i i' (he k i hk) (he k' i' hk') hname
  | some i =>
    have hnew : fed'.identity fed.nextInstance = some i := (he _).trans (if_pos rfl)
    have hold : ∀ {k}, k ≠ fed.nextInstance → fed'.identity k = fed.identity k :=
      fun hk => (he _).trans (if_neg hk)
    constructor
    · rintro h' _ ⟨⟩ ⟨k, j, hj, hk, hname⟩
      exact hk (h' k _ j i ((hold hk).trans hj) hnew hname)
    · intro hfree k k' j j' hj hj' hname
      have unused : ∀ {k j}, k ≠ fed.nextInstance → fed'.identity k = some j → j.name ≠ i.name :=
        fun hk hj hji => hfree i rfl ⟨_, _, (hold hk).symm.trans hj, hk, hji⟩
      by_cases hk : k = fed.nextInstance <;> by_cases hk' : k' = fed.nextInstance
      · rw [hk, hk']
      · rw [hk, hnew] at hj
        cases hj
        exact absurd hname.symm (unused hk' hj')
      · rw [hk', hnew] at hj'
        cases hj'
        exact absurd hname (unused hk hj)
      · exact h k k' j j' ((hold hk).symm.trans hj) ((hold hk').symm.trans hj') hname

end Federation

/-! ## Registrations -/

namespace FedAction

/-- A name is generated only if it is not in use. -/
def GivesFreeInstanceName (fed : Federation) : FedAction → Prop
  | serve c req => ∀ cls, req.registration? = some (cls, none) →
      (registering c fed cls none).isSome = true → ¬ fed.UsesInstanceName fed.generatedInstanceName
  | _ => True

variable {fed : Federation} {a : FedAction}

theorem givesFreeInstanceName_of_none (h : a.registers fed = none) : a.GivesFreeInstanceName fed := by
  cases a with
  | serve =>
    intro cls hreq hsome
    rw [registers, hreq, Option.bind_some] at h
    rw [h] at hsome
    cases hsome
  | _ => trivial

/-- A name that was asked for was compared with those in use. -/
theorem givesFreeInstanceName_of_some {id : InstanceIdentity} (h : a.registers fed = some id) :
    a.GivesFreeInstanceName fed ↔ ¬ fed.UsesInstanceName id.name := by
  cases a with
  | serve =>
    obtain ⟨⟨cls, requestedName⟩, hreq, hid⟩ := Option.bind_eq_some_iff.mp h
    obtain ⟨cls', fs, _, hfree, rfl⟩ := registering_eq_some.mp hid
    cases requestedName with
    | none =>
      refine ⟨fun hgives => hgives cls hreq (Option.isSome_of_eq_some hid), ?_⟩
      exact fun hunused _ _ _ => hunused
    | some =>
      constructor
      · rintro - ⟨k, j, hj, _, hname⟩
        obtain ⟨i, hi, rfl⟩ := Option.map_eq_some_iff.mp hj
        exact hfree ⟨rfl, i, HashMap.mem_values.mpr ⟨k, hi⟩, hname⟩
      · intro _ cls'' hnone
        rw [hreq] at hnone
        cases hnone
  | _ => cases h

theorem givesFreeInstanceName_iff :
    a.GivesFreeInstanceName fed ↔ ∀ id ∈ a.registers fed, ¬ fed.UsesInstanceName id.name := by
  cases h : a.registers fed with
  | none => exact ⟨fun _ id hid => (nomatch hid), fun _ => givesFreeInstanceName_of_none h⟩
  | some id =>
    rw [givesFreeInstanceName_of_some h]
    refine ⟨?_, fun hall => hall id rfl⟩
    rintro hunused _ ⟨⟩
    exact hunused

end FedAction

/-! ## Snapshots -/

/-- No two saved instances have the same name. -/
def FederationSnapshot.DistinctNames (snap : FederationSnapshot) : Prop :=
  ∀ ser ∈ snap.instances, ∀ ser' ∈ snap.instances, ser.name = ser'.name → ser.handle = ser'.handle

section Snapshots

variable {fed fed' : Federation}

theorem snapshot_distinctNames (h : fed.DistinctInstanceNames) (env : Env) :
    (fed.snapshot env).DistinctNames := by
  have saved : ∀ {ser}, ser ∈ (fed.snapshot env).instances →
      ∃ k i, fed.objectInstances.lookup k = some i ∧ ser.name = i.name ∧ ser.handle = i.handle.raw := by
    intro ser hser
    obtain ⟨k, -, hk⟩ := List.mem_filterMap.mp hser
    obtain ⟨i, hi, rfl⟩ := Option.map_eq_some_iff.mp hk
    exact ⟨k, i, hi, rfl, rfl⟩
  intro ser hser ser' hser' hname
  obtain ⟨k, i, hi, hin, hih⟩ := saved hser
  obtain ⟨k', i', hi', hin', hih'⟩ := saved hser'
  have hk : k = k' := h k k' i.identity i'.identity (congrArg (Option.map _) hi)
    (congrArg (Option.map _) hi') (hin.symm.trans (hname.trans hin'))
  subst hk
  cases hi.symm.trans hi'
  exact hih.trans hih'.symm

theorem applySnapshot_distinct {snap : FederationSnapshot} (h : snap.DistinctNames)
    (o : IterOrder FederateHandle) : (fed.applySnapshot o snap).DistinctInstanceNames := by
  have saved : ∀ {k id}, (fed.applySnapshot o snap).identity k = some id →
      ∃ ser ∈ snap.instances, ⟨ser.handle⟩ = k ∧ ser.name = id.name := by
    intro k id hid
    obtain ⟨i, hi, rfl⟩ := Option.map_eq_some_iff.mp hid
    obtain ⟨ser, hser, hk, hval⟩ := mem_of_lookup_applySnapshot hi
    obtain ⟨registrar, _, rfl⟩ := Option.map_eq_some_iff.mp hval
    exact ⟨ser, hser, hk, rfl⟩
  intro k k' id id' hk hk' hname
  obtain ⟨ser, hser, rfl, hsn⟩ := saved hk
  obtain ⟨ser', hser', rfl, hsn'⟩ := saved hk'
  exact congrArg _ (h ser hser ser' hser' (hsn.trans (hname.trans hsn'.symm)))

theorem distinct_of_instances (h : fed.DistinctInstanceNames)
    (hsame : fed'.objectInstances = fed.objectInstances) : fed'.DistinctInstanceNames :=
  (h.iff_of_effect (.of_instances hsame)).mpr fun _ hid => (nomatch hid)

theorem restore_distinct {c : Caller} {label : String} (h : fed.DistinctInstanceNames)
    (hsaved : ∀ snap, c.saved fed.name label = some snap → snap.DistinctNames) :
    (requestFederationRestore c fed label).federation.DistinctInstanceNames :=
  requestFederationRestore_keeps h (distinct_of_instances h rfl)
    fun snap hs => applySnapshot_distinct (hsaved snap hs) _

end Snapshots

/-! ## Runs -/

namespace Node

/-- No two saved instances of a snapshot on disk have the same name. -/
def SnapshotsDistinct (n : Node) : Prop := ∀ file snap, n.disk file = some snap → snap.DistinctNames

theorem snapshotsDistinct_step {n : Node} {e : NodeEvent} (hheap : ∀ r, (n.heap r).DistinctInstanceNames)
    (hdisk : n.SnapshotsDistinct) : (n.step e).SnapshotsDistinct := by
  intro file snap hsnap
  rw [disk_step] at hsnap
  cases hw : n.writes e with
  | none =>
    rw [hw] at hsnap
    exact hdisk file snap hsnap
  | some entry =>
    obtain ⟨federation, label, written⟩ := entry
    rw [hw, diskAfter, Function.update_apply] at hsnap
    split at hsnap
    · cases hsnap
      obtain ⟨r, c, req, _, hsave⟩ := snapshot_of_writes hw
      obtain ⟨fed', env, hsame, rfl⟩ := serve_savesOwn req label snap hsave
      exact snapshot_distinctNames (distinct_of_instances (hheap r) hsame) env
    · exact hdisk file snap hsnap

theorem saved_distinctNames {n : Node} (hdisk : n.SnapshotsDistinct) {e : NodeEvent} {r : FedRef}
    {c : Caller} {req : ServiceRequest} (ha : n.action e = some (r, .serve c req))
    {federation label : String} {snap : FederationSnapshot}
    (hs : c.saved federation label = some snap) : snap.DistinctNames := by
  obtain ⟨_, _, m, env, _, _, _, _, rfl⟩ := action_serve ha
  exact hdisk _ snap hs

theorem distinct_apply {n : Node} (hdisk : n.SnapshotsDistinct) {e : NodeEvent} {r : FedRef}
    {a : FedAction} (ha : n.action e = some (r, a)) (h : (n.heap r).DistinctInstanceNames)
    (hok : a.GivesFreeInstanceName (n.heap r)) : (a.apply (n.heap r)).DistinctInstanceNames := by
  cases hr : a.restores with
  | false => exact (h.iff_of_effect (a.identities hr)).mpr (FedAction.givesFreeInstanceName_iff.mp hok)
  | true =>
    cases a with
    | serve =>
      obtain ⟨label, rfl⟩ := FedAction.eq_of_restores hr
      exact restore_distinct h fun _ => saved_distinctNames hdisk ha
    | _ => cases hr

/-- Names that are distinct before and after a step were given free. -/
theorem givesFree_of_distinct {n : Node} {e : NodeEvent}
    (h : ∀ r, (n.heap r).DistinctInstanceNames) (h' : ∀ r, ((n.step e).heap r).DistinctInstanceNames) :
    n.Meets (fun fed a => a.GivesFreeInstanceName fed) e := by
  rintro ⟨r, a⟩ ha
  cases hr : a.restores with
  | false =>
    have hafter : (a.apply (n.heap r)).DistinctInstanceNames := by
      have hheap : (n.step e).heap r = a.apply (n.heap r) := by
        rw [heap_step, ha]
        exact Function.update_self ..
      exact hheap ▸ h' r
    exact FedAction.givesFreeInstanceName_iff.mpr (((h r).iff_of_effect (a.identities hr)).mp hafter)
  | true => exact FedAction.givesFreeInstanceName_of_none (FedAction.registers_of_restores hr)

end Node

/-! ## Names and handles -/

/-- `encode_object_instance` -/
def encodeObjectInstance (h : ObjectInstanceHandle) : Bytes := toBe64 h.raw

theorem decodeObjectInstance_encode (h : ObjectInstanceHandle) :
    decodeObjectInstance (encodeObjectInstance h) = some h := by
  have hval : UInt64.ofNat (bigEndian (toBe64 h.raw)) = h.raw := fromBe64_toBe64 h.raw
  rw [decodeObjectInstance, encodeObjectInstance, decodeU64, if_pos (length_toBe64 _), hval]
  rfl

/-- Asked by any federates, the instance of a handle has a name, and the handle
of that name is the one. -/
def Federation.InstanceNamesBack (fed : Federation) (k : ObjectInstanceHandle) : Prop :=
  ∀ c c', ∃ name,
    (serve c fed (.lookup (.getObjectInstanceName (some (encodeObjectInstance k))))).response =
      .getObjectInstanceName name ∧
    (serve c' fed (.lookup (.getObjectInstanceHandle name))).response = .getObjectInstanceHandle k

section Lookup

variable {fed : Federation}

theorem lookupInstance_registered {k : ObjectInstanceHandle} {i : ObjectInstance}
    (hi : fed.objectInstances.lookup k = some i) :
    lookupInstance fed (some (encodeObjectInstance k)) = .ok i := by
  rw [lookupInstance, Option.bind_some, decodeObjectInstance_encode]
  simp [getOr, hi, bind, Except.bind]

theorem getObjectInstanceHandle_registered (hn : fed.DistinctInstanceNames) (hk : fed.Keyed)
    (c : Caller) {k : ObjectInstanceHandle} {i : ObjectInstance}
    (hi : fed.objectInstances.lookup k = some i) :
    getObjectInstanceHandle c fed i.name = .ok (.getObjectInstanceHandle k) := by
  rw [getObjectInstanceHandle]
  have hmem : i ∈ (c.env.instances.order fed.objectInstances.keys).filterMap
      fed.objectInstances.lookup :=
    List.mem_filterMap.mpr ⟨k, c.env.instances.mem_order.mpr
      (AList.mem_keys.mp (HashMap.mem_of_lookup hi)), hi⟩
  obtain ⟨j, hfind, hj, hname⟩ :=
    exists_find? (p := fun j => j.name == i.name) hmem (beq_self_eq_true _)
  -- whichever instance is met first is the one, as no other has the name
  obtain ⟨k', -, hj⟩ := List.mem_filterMap.mp hj
  have hkk : k' = k := hn k' k j.identity i.identity (congrArg (Option.map _) hj)
    (congrArg (Option.map _) hi) (beq_iff_eq.mp hname)
  have hhandle : j.handle = k := (hk.instances k' j hj).trans hkk
  simp [hfind, getOr, bind, Except.bind, pure, Except.pure, hhandle]

theorem instanceNamesBack (hn : fed.DistinctInstanceNames) (hk : fed.Keyed)
    {k : ObjectInstanceHandle} (h : k ∈ fed.objectInstances) : fed.InstanceNamesBack k := by
  intro c c'
  obtain ⟨i, hi⟩ := HashMap.mem_iff_lookup.mp h
  refine ⟨i.name, ?_, ?_⟩
  · simp [serve, serveLookup, LookupRequest.missingHandle, lookupResponse,
      lookupInstance_registered hi, Outcome.ofExcept, bind, Except.bind, pure, Except.pure,
      Outcome.reply]
  · simp [serve, serveLookup, LookupRequest.missingHandle, lookupResponse,
      getObjectInstanceHandle_registered hn hk c' hi, Outcome.ofExcept, bind, Except.bind, pure,
      Except.pure, Outcome.reply]

end Lookup

/-- Instances have distinct names, and a name leads back to its handle. -/
structure Federation.InstanceNamesUnique (fed : Federation) : Prop where
  distinct : fed.DistinctInstanceNames
  back : ∀ k ∈ fed.objectInstances, fed.InstanceNamesBack k

/-- **Instance names are unique** exactly in the runs in which a name is
generated only if it is not in use. -/
theorem instance_names_unique_iff (es : List NodeEvent) :
    Always Node.step (fun n => ∀ r, (n.heap r).InstanceNamesUnique) Node.new es ↔
      StepsMeet Node.step (Node.Meets fun fed a => a.GivesFreeInstanceName fed) Node.new es := by
  constructor
  · intro h
    obtain ⟨h0, hsteps⟩ := always_iff.mp h
    refine hsteps.each (P := fun n => ∀ r, (n.heap r).InstanceNamesUnique)
      (fun _ _ _ hnext => hnext) ?_ h0
    intro n e hn hnext
    exact Node.givesFree_of_distinct (fun r => (hn r).distinct) fun r => (hnext r).distinct
  · intro h done hdone
    -- what is on disk has to be carried along, as a restore may read any of it
    have hinv : (∀ r, ((run Node.step Node.new done).heap r).DistinctInstanceNames) ∧
        (run Node.step Node.new done).SnapshotsDistinct := by
      refine (h.of_prefix hdone).invariant (P := fun n =>
        (∀ r, (n.heap r).DistinctInstanceNames) ∧ n.SnapshotsDistinct) ?_ ⟨?_, ?_⟩
      · rintro n e ⟨hheap, hdisk⟩ hok
        refine ⟨fun r => ?_, Node.snapshotsDistinct_step hheap hdisk⟩
        rcases n.heap_cases e r with hsame | ⟨a, ha, hact⟩
        · exact hsame ▸ hheap r
        · exact hact ▸ Node.distinct_apply hdisk ha (hheap r) (hok (r, a) ha)
      · exact fun r k k' id id' hk => (nomatch hk)
      · exact fun file snap hsnap => (nomatch hsnap)
    exact fun r => ⟨hinv.1 r, fun k hk => instanceNamesBack (hinv.1 r) (Node.keyed done r) hk⟩

/-- An instance is registered as `HLA2`, and the next one is named after its
handle. -/
def instanceNameTaken : List NodeEvent := pairJoined ++
  [.serves 0 (.declaration (.publishObjectClassAttributes (wire32 1) (some [[0, 0, 0, 1]]))),
    .serves 0 (.object (.registerObjectInstanceWithName (wire32 1) "HLA2")),
    .serves 0 (.object (.registerObjectInstance (wire32 1)))]

/-- The instance a response names. -/
def Resp.instance? : Resp → Option (ObjectInstanceHandle ⊕ String)
  | getObjectInstanceHandle h => some (.inl h)
  | getObjectInstanceName name => some (.inr name)
  | _ => none

/-- **Two instances of one name.**  Asked for the handle of the name of
instance 1, the RTI answers with instance 2. -/
theorem instanceNameTaken_clash :
    let n := run Node.step Node.new instanceNameTaken
    (n.heap 0).identity ⟨1⟩ = some ⟨⟨1⟩, "HLA2", ⟨1⟩⟩ ∧
    (n.heap 0).identity ⟨2⟩ = some ⟨⟨1⟩, "HLA2", ⟨1⟩⟩ ∧
    (n.outcome 0 .plain (.service (.lookup (.getObjectInstanceName (wire64 1))))).bind
      (·.response.instance?) = some (.inr "HLA2") ∧
    (n.outcome 0 .plain (.service (.lookup (.getObjectInstanceHandle "HLA2")))).bind
      (·.response.instance?) = some (.inl ⟨2⟩) := by
  decide +kernel

end Hla4
