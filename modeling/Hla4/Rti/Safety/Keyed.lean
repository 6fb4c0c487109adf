/-
# `Hla4.Rti.Safety.Keyed` — every record is filed under its own key

A federate's record carries its handle, an instance its handle, and a
synchronization point its label, and each is the key it is filed under.  The
snapshots of `persistence.rs` go by the fields and forget the keys, so that
what they say of a federation rests on this.
-/
import Hla4.Rti.Node

namespace Hla4

open Lib

structure Federation.Keyed (fed : Federation) : Prop where
  federates : fed.federates.KeyedBy FederateSession.handle
  instances : fed.objectInstances.KeyedBy ObjectInstance.handle
  syncPoints : fed.syncPoints.KeyedBy SyncPoint.label

variable {c : Caller} {fed fed' : Federation} {names : HashMap String FederateHandle}

theorem Federation.keyed_new (name : String) (fom : Omt.MergedFom) : (Federation.new name fom).Keyed :=
  ⟨.empty, .empty, .empty⟩

/-! ## Federates -/

theorem keyedFederates_of_touches {ps : List Part} (ht : fed.Touches ps fed')
    (hp : Part.federate .identity ∉ ps) (h : fed.federates.KeyedBy FederateSession.handle) :
    fed'.federates.KeyedBy FederateSession.handle := by
  intro k fs' hfs'
  obtain ⟨fs, hfs, hid⟩ := ht.record_before hp hfs'
  have hhandle : fs.handle = fs'.handle := congrArg Prod.fst hid
  exact hhandle ▸ h k fs hfs

/-! ## Instances -/

/-- Instances stay filed under their handles. -/
def Outcome.KeepsInstances (fed : Federation) (o : Outcome) : Prop :=
  fed.objectInstances.KeyedBy ObjectInstance.handle →
    o.federation.objectInstances.KeyedBy ObjectInstance.handle

theorem registerObjectInstance_keyed {cls : WireField} {name : Option String}
    (h : fed.objectInstances.KeyedBy ObjectInstance.handle) :
    (registerObjectInstance c fed cls name).federation.objectInstances.KeyedBy
      ObjectInstance.handle := by
  rw [registerObjectInstance]
  split
  · exact h
  · dsimp only
    split
    · exact h
    · exact h.insert rfl

theorem registerObjectInstanceWithRegions_keyed {cls : WireField} {name : Option String}
    {pairs : WireRegionPairs} (h : fed.objectInstances.KeyedBy ObjectInstance.handle) :
    (registerObjectInstanceWithRegions c fed cls name pairs).federation.objectInstances.KeyedBy
      ObjectInstance.handle := by
  rw [registerObjectInstanceWithRegions]
  split
  · exact registerObjectInstance_keyed h
  · exact (registerObjectInstance_keyed h).modify fun _ => rfl

theorem Registration.keepsInstances {r : Registration} {form : RegisterForm}
    (h : r.federation.objectInstances.KeyedBy ObjectInstance.handle) :
    (r.outcome form).federation.objectInstances.KeyedBy ObjectInstance.handle := by
  rw [Registration.outcome]
  cases r.result with
  | ok => exact h
  | error => exact h

theorem serveObject_keepsInstances (r : ObjectRequest) :
    (serveObject c fed r).KeepsInstances fed := by
  cases r with
  | registerObjectInstance | registerObjectInstanceWithName =>
    exact fun h => Registration.keepsInstances (registerObjectInstance_keyed h)
  | registerObjectInstanceWithRegions | registerObjectInstanceWithNameAndRegions =>
    exact fun h => Registration.keepsInstances (registerObjectInstanceWithRegions_keyed h)
  | _ =>
    exact serveObject_unregistered (Q := Outcome.KeepsInstances fed) (fun _ hsame h => hsame ▸ h)
      (fun _ _ _ _ herase h => herase ▸ h.erase _) rfl

theorem serveOwnership_keepsInstances (r : OwnershipRequest) :
    (serveOwnership c fed r).KeepsInstances fed :=
  serveOwnership_sets (Q := Outcome.KeepsInstances fed) (fun _ hsame h => hsame ▸ h)
    (fun _ _ _ _ h => h.modify fun _ => rfl) r

/-! ## Restores -/

theorem restoreInstance_keyed {ser : SerInstance}
    (h : fed.objectInstances.KeyedBy ObjectInstance.handle) :
    (fed.restoreInstance names ser).objectInstances.KeyedBy ObjectInstance.handle := by
  rw [Federation.restoreInstance]
  split
  · exact h
  · exact h.insert rfl

theorem restoreInstances_keyed (sers : List SerInstance)
    (h : fed.objectInstances.KeyedBy ObjectInstance.handle) :
    (sers.foldl (fun fed ser => fed.restoreInstance names ser) fed).objectInstances.KeyedBy
      ObjectInstance.handle := by
  induction sers generalizing fed with
  | nil => exact h
  | cons ser sers ih => exact ih (restoreInstance_keyed h)

theorem restoreSyncPoints_keyed (sers : List SerSyncPoint) {points : HashMap String SyncPoint}
    (h : points.KeyedBy SyncPoint.label) :
    (sers.foldl (Federation.restoreSyncPoint names) points).KeyedBy SyncPoint.label := by
  induction sers generalizing points with
  | nil => exact h
  | cons ser sers ih => exact ih (h.insert rfl)

theorem applySnapshot_keyed {o : IterOrder FederateHandle} {snap : FederationSnapshot}
    (h : fed.Keyed) : (fed.applySnapshot o snap).Keyed where
  federates := keyedFederates_of_touches touches_applySnapshot (by decide) h.federates
  instances := restoreInstances_keyed _ .empty
  syncPoints := restoreSyncPoints_keyed _ .empty

theorem requestFederationRestore_keyed {label : String} (h : fed.Keyed) :
    (requestFederationRestore c fed label).federation.Keyed := by
  have hbegun : (fed.restoreBegun c label).Keyed := ⟨h.federates, h.instances, h.syncPoints⟩
  exact requestFederationRestore_keeps h hbegun fun _ _ => applySnapshot_keyed hbegun

/-! ## Synchronization points -/

theorem serveSyncPoint_keyed (r : SyncPointRequest) (h : fed.syncPoints.KeyedBy SyncPoint.label) :
    (serveSyncPoint c fed r).federation.syncPoints.KeyedBy SyncPoint.label := by
  have register : ∀ label tag subset,
      (registerSynchronizationPoint c fed label tag subset).federation.syncPoints.KeyedBy
        SyncPoint.label := by
    intro label tag subset
    refine Outcome.ofExcept_of (Q := fun o => o.federation.syncPoints.KeyedBy SyncPoint.label)
      (fun _ => h) (.bind fun _ _ => ?_)
    split
    · exact .pure h
    · exact .pure (h.insert rfl)
  cases r with
  | registerFederationSynchronizationPoint label tag => exact register label tag none
  | registerFederationSynchronizationPointWithSet label tag => exact register label tag _
  | synchronizationPointAchieved label =>
    refine Outcome.ofExcept_of (Q := fun o => o.federation.syncPoints.KeyedBy SyncPoint.label)
      (fun _ => h) (.bind fun sp hsp => .bind fun _ _ => ?_)
    dsimp only
    split
    · exact .pure (h.erase _)
    · exact .pure (h.insert (h label sp (getOr_eq_ok.mp hsp)))

/-! ## Every federation -/

theorem serve_keyed (req : ServiceRequest) (h : fed.Keyed) : (serve c fed req).federation.Keyed := by
  have hfeds := keyedFederates_of_touches (serve_touches (c := c) req) (by decide) h.federates
  have instances : ∀ {ps : List Part}, fed.Touches ps (serve c fed req).federation →
      Part.instances ∉ ps → (serve c fed req).federation.objectInstances = fed.objectInstances :=
    fun ht hp => ht .instances hp
  have syncPoints : ∀ {ps : List Part}, fed.Touches ps (serve c fed req).federation →
      Part.syncPoints ∉ ps → (serve c fed req).federation.syncPoints = fed.syncPoints :=
    fun ht hp => ht .syncPoints hp
  cases req with
  | object r =>
    have hsync := syncPoints (serve_footprint _) (by simp [ServiceRequest.parts])
    exact ⟨hfeds, serveObject_keepsInstances r h.instances, hsync ▸ h.syncPoints⟩
  | ownership r =>
    have hsync := syncPoints (serve_footprint _) (by simp [ServiceRequest.parts])
    exact ⟨hfeds, serveOwnership_keepsInstances r h.instances, hsync ▸ h.syncPoints⟩
  | saveRestore r =>
    cases hr : r.restores with
    | false =>
      have hinst := instances (serveSaveRestore_records hr).touches (by decide)
      have hsync := syncPoints (serveSaveRestore_records hr).touches (by decide)
      exact ⟨hfeds, hinst ▸ h.instances, hsync ▸ h.syncPoints⟩
    | true =>
      cases r with
      | requestFederationRestore => exact requestFederationRestore_keyed h
      | _ => cases hr
  | syncPoint r =>
    have hinst := instances (serve_footprint _) (by simp [ServiceRequest.parts])
    exact ⟨hfeds, hinst ▸ h.instances, serveSyncPoint_keyed r h.syncPoints⟩
  | _ =>
    have hinst := instances (serve_footprint _) (by simp [ServiceRequest.parts])
    have hsync := syncPoints (serve_footprint _) (by simp [ServiceRequest.parts])
    exact ⟨hfeds, hinst ▸ h.instances, hsync ▸ h.syncPoints⟩

theorem keyed_apply (fed : Federation) (a : FedAction) (h : fed.Keyed) : (a.apply fed).Keyed := by
  cases a with
  | create name fom => exact Federation.keyed_new name fom
  | join =>
    refine Federation.join_keeps (P := Federation.Keyed) ?_ fun name => ?_
    · exact ⟨h.federates, h.instances, h.syncPoints⟩
    · exact ⟨h.federates.insert rfl, h.instances, h.syncPoints⟩
  | leave k => exact ⟨h.federates.erase k, h.instances, h.syncPoints⟩
  | serve c req => exact serve_keyed req h

/-- **Every federation of every node is keyed.** -/
theorem Node.keyed (es : List NodeEvent) (r : FedRef) :
    ((run Node.step Node.new es).heap r).Keyed := by
  have hmeets : StepsMeet Node.step (Node.Meets fun _ _ => True) Node.new es :=
    .of_forall fun _ _ _ _ => trivial
  exact Node.heap_always Federation.keyed_new (fun fed a h _ => keyed_apply fed a h) hmeets es
    (List.prefix_refl es) r

end Hla4
