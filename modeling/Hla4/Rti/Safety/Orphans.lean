/-
# `Hla4.Rti.Safety.Orphans` — owners that have left

Ownership is recorded with the instances, membership with the federates, and
whoever leaves a federation is only taken off the second:

    resign, whatever the resign action      federates.remove(handle)
    end of the session, no reconnect        federates.remove(handle)
    janitor                                 federates.remove(handle)

What a federate owns when it leaves stays its own.  Nobody can update it, and
nobody can acquire it, as acquisition looks for an attribute without an entry.

The other services are careful.  A registration and an acquisition make the
caller the owner, a divestiture makes nobody, and a restore drops the owners that
are not joined (`serve_noOrphans`).  So owners are joined in every run in which a
federate leaves only when it owns nothing (`no_orphans`), and then every attribute
can be updated or acquired.
-/
import Hla4.Rti.Safety.Owners
import Hla4.Rti.Safety.Membership
import Hla4.Rti.Safety.Snapshot
import Hla4.Rti.Safety.Waiting

namespace Hla4

open Lib

variable {c : Caller} {fed fed' : Federation}

namespace Federation

/-- Every owner is joined. -/
def NoOrphans (fed : Federation) : Prop :=
  ∀ i attr f, fed.owner i attr = some f → f ∈ fed.federates

/-- A joined federate can update the attribute. -/
def Updatable (fed : Federation) (i : ObjectInstanceHandle) (attr : AttributeHandle) : Prop :=
  ∃ f ∈ fed.federates, ∀ c inst values tag vs, c.federate = f →
    inst.bind decodeObjectInstance = some i → decodeAttributeValueMap values = .ok vs →
    vs.keys = [attr] → (updateAttributeValues c fed inst values tag).response.accepted = true

/-- Whoever asks for the attribute gets it. -/
def Acquirable (fed : Federation) (i : ObjectInstanceHandle) (attr : AttributeHandle) : Prop :=
  ∀ c inst attrs tag set, inst.bind decodeObjectInstance = some i →
    decodeHandleSet attrs = .ok set → attr ∈ set →
    (attributeOwnershipAcquisitionIfAvailable c fed inst attrs tag).federation.owner i attr =
      some c.federate

end Federation

/-! ## What can be done with an attribute -/

theorem updatable_of_owner {i : ObjectInstanceHandle} {attr : AttributeHandle} {f : FederateHandle}
    (hown : fed.owner i attr = some f) (hf : f ∈ fed.federates) : fed.Updatable i attr := by
  refine ⟨f, hf, ?_⟩
  intro c inst values tag vs hc hinst hvalues hkeys
  obtain ⟨rec, hrec, hattr⟩ := Option.bind_eq_some_iff.mp hown
  have howned : ownedInstance c fed i vs.keys = .ok rec := by
    refine bind_eq_ok.mpr ⟨rec, getOr_eq_ok.mpr hrec, bind_eq_ok.mpr ⟨(), ?_, rfl⟩⟩
    rw [require_eq_ok, hkeys, hc]
    intro a ha
    rw [List.mem_singleton.mp ha]
    exact hattr
  simp only [updateAttributeValues, getOr_eq_ok.mpr hinst, hvalues, bind, Except.bind, howned]
  rfl

theorem acquirable_of_unowned {i : ObjectInstanceHandle} {attr : AttributeHandle}
    (hi : i ∈ fed.objectInstances) (hown : fed.owner i attr = none) : fed.Acquirable i attr := by
  intro c inst attrs tag set hinst hset hattr
  obtain ⟨rec, hrec⟩ := HashMap.mem_iff_lookup.mp hi
  have hfree : attr ∉ rec.attributeOwners := by
    rw [Federation.owner, hrec] at hown
    exact AList.lookup_eq_none.mp hown
  simp only [attributeOwnershipAcquisitionIfAvailable, instanceArg, getOr_eq_ok.mpr hinst, hset,
    knownInstance, bind, Except.bind, getOr_eq_ok.mpr hrec]
  show (fed.setOwners i _).owner i attr = _
  rw [Federation.owner_setOwners hrec, if_pos rfl, HashMap.lookup_foldl_insert, if_pos]
  exact List.mem_filter.mpr ⟨AList.mem_keys.mp hattr, decide_eq_true hfree⟩

/-- Where every owner is joined, no attribute is stuck. -/
theorem Federation.NoOrphans.usable (h : fed.NoOrphans) {i : ObjectInstanceHandle}
    (hi : i ∈ fed.objectInstances) (attr : AttributeHandle) :
    fed.Updatable i attr ∨ fed.Acquirable i attr := by
  cases hown : fed.owner i attr with
  | some f => exact .inl (updatable_of_owner hown (h i attr f hown))
  | none => exact .inr (acquirable_of_unowned hi hown)

/-! ## The actions -/

namespace Federation.NoOrphans

theorem of_new (name : String) (fom : Omt.MergedFom) : (Federation.new name fom).NoOrphans := by
  intro i attr f hown
  cases hown

theorem mono (h : fed.NoOrphans) (hi : fed'.objectInstances = fed.objectInstances)
    (hf : ∀ f ∈ fed.federates, f ∈ fed'.federates) : fed'.NoOrphans := by
  intro i attr f hown
  rw [owner_eq_of_instances hi] at hown
  exact hf f (h i attr f hown)

end Federation.NoOrphans

/-- Restored owners are those that are joined. -/
theorem applySnapshot_noOrphans {o : IterOrder FederateHandle} {snap : FederationSnapshot}
    (hk : fed.Keyed) : (fed.applySnapshot o snap).NoOrphans := by
  intro i attr f hown
  have heq : (fed.applySnapshot o snap).objectInstances = HashMap.collect (fun ser => ⟨ser.handle⟩)
      (restored? (fed.nameToHandle o)) snap.instances ∅ := restoreInstances_eq _ _
  obtain ⟨inst, hinst, hattr⟩ := Option.bind_eq_some_iff.mp hown
  rw [heq] at hinst
  rcases HashMap.lookup_collect_eq_some hinst with ⟨ser, _, _, hser⟩ | hnone
  · obtain ⟨registrar, _, rfl⟩ := Option.map_eq_some_iff.mp hser
    have hattr' : (Federation.restoreOwners (fed.nameToHandle o) ser.attributeOwners).lookup attr =
        some f := hattr
    rw [restoreOwners_eq] at hattr'
    rcases HashMap.lookup_collect_eq_some hattr' with ⟨e, _, _, hf⟩ | hnone
    · obtain ⟨fs, hfs, _⟩ := joined_of_nameToHandle hk hf
      exact (touches_applySnapshot.mem_federates (by decide) f).mpr (HashMap.mem_of_lookup hfs)
    · cases hnone
  · cases hnone

theorem requestFederationRestore_noOrphans {label : String} (hk : fed.Keyed) (h : fed.NoOrphans) :
    (requestFederationRestore c fed label).federation.NoOrphans := by
  have hbegun : (fed.restoreBegun c label).Keyed := ⟨hk.federates, hk.instances, hk.syncPoints⟩
  exact requestFederationRestore_keeps (P := Federation.NoOrphans) h h
    fun _ _ => applySnapshot_noOrphans hbegun

/-- **A call of a joined federate makes no orphan.** -/
theorem serve_noOrphans (req : ServiceRequest) (hk : fed.Keyed) (h : fed.NoOrphans)
    (hcaller : c.federate ∈ fed.federates) : (serve c fed req).federation.NoOrphans := by
  cases hr : (FedAction.serve c req).restores with
  | false =>
    intro i attr f hown
    refine (serve_mem_federates req f).mpr ?_
    rcases Federation.InstanceEffect.gives (serve_instances hr) hown with rfl | hold
    · exact hcaller
    · exact h i attr f hold
  | true =>
    obtain ⟨label, rfl⟩ := FedAction.eq_of_restores hr
    exact requestFederationRestore_noOrphans hk h

namespace FedAction

/-- Whoever leaves owns nothing. -/
def LeavesNothing (fed : Federation) : FedAction → Prop
  | leave h => ∀ i ∈ fed.objectInstances.values, h ∉ i.attributeOwners.values
  | _ => True

instance (fed : Federation) : (a : FedAction) → Decidable (a.LeavesNothing fed)
  | .create .. | .join .. => .isTrue trivial
  | .leave h => inferInstanceAs (Decidable
      (∀ i ∈ fed.objectInstances.values, h ∉ i.attributeOwners.values))
  | .serve .. => .isTrue trivial

theorem noOrphans_apply {a : FedAction} (hk : fed.Keyed) (h : fed.NoOrphans)
    (hleave : a.LeavesNothing fed) (hcall : a.CallerJoined fed) : (a.apply fed).NoOrphans := by
  cases a with
  | create name fom => exact .of_new name fom
  | join requested sessionId =>
    have hsame : (fed.join requested sessionId).1.objectInstances = fed.objectInstances :=
      fed.join_view requested sessionId (p := .instances) (by simp) (by simp)
    exact h.mono hsame fun f hf => mem_join hf
  | leave =>
    intro i attr f hown
    have hf := h i attr f hown
    obtain ⟨inst, hinst, hattr⟩ := Option.bind_eq_some_iff.mp hown
    refine AList.mem_erase.mpr ⟨?_, hf⟩
    rintro rfl
    exact hleave inst (HashMap.mem_values.mpr ⟨i, hinst⟩) (HashMap.mem_values.mpr ⟨attr, hattr⟩)
  | serve c req => exact serve_noOrphans req hk h hcall

end FedAction

/-! ## Whole runs -/

namespace Node

/-- Whoever leaves owns nothing, and no join overwrites a federate. -/
def LeavesClean (fed : Federation) (a : FedAction) : Prop := a.FreshJoin fed ∧ a.LeavesNothing fed

instance (fed : Federation) (a : FedAction) : Decidable (LeavesClean fed a) :=
  inferInstanceAs (Decidable (_ ∧ _))

/-- **No orphaned ownership.**  In every run in which a federate leaves, by
resigning, by losing its session or by the janitor, only when it owns nothing, and
no join is given the handle of a joined federate: every owner recorded is joined,
and every attribute of every instance can be updated by a joined federate, or
acquired by whoever asks. -/
theorem no_orphans {es : List NodeEvent} (h : StepsMeet Node.step (Meets LeavesClean) Node.new es) :
    Always Node.step (fun n => ∀ r, (n.heap r).NoOrphans ∧
      ∀ i ∈ (n.heap r).objectInstances, ∀ attr,
        (n.heap r).Updatable i attr ∨ (n.heap r).Acquirable i attr) Node.new es := by
  have hinv := h.always (P := fun n => n.Rooted ∧ ∀ r, (n.heap r).Keyed ∧ (n.heap r).NoOrphans)
    (fun n e hn hok => by
      obtain ⟨hroot, hfeds⟩ := hn
      refine ⟨rooted_step n e hroot fun ra ha => (hok ra ha).1, ?_⟩
      intro r
      rcases n.heap_cases e r with hsame | ⟨a, ha, hact⟩
      · rw [hsame]
        exact hfeds r
      · obtain ⟨hk, horph⟩ := hfeds r
        rw [hact]
        exact ⟨keyed_apply _ a hk, FedAction.noOrphans_apply hk horph (hok (r, a) ha).2
          (hroot.callerJoined e (r, a) ha)⟩)
    ⟨rooted_new, fun r => ⟨Federation.keyed_new _ _, .of_new _ _⟩⟩
  intro done hd r
  have horph := ((hinv done hd).2 r).2
  exact ⟨horph, fun i hi attr => horph.usable hi attr⟩

/-- Federate 1 gives up its attribute and resigns, and federate 2 acquires it. -/
theorem no_orphans_divested :
    let es := pairUpdating ++
      [.serves 0 (.ownership (.attributeOwnershipDivestiture .unconditional (wire64 1)
          (some [[0, 0, 0, 1]]))), .manages 0 .resignFederationExecution,
        .serves 1 (.ownership (.attributeOwnershipAcquisition true (wire64 1)
          (some [[0, 0, 0, 1]]) []))]
    ((run Node.step Node.new es).heap 0).owner ⟨1⟩ ⟨1⟩ = some ⟨2⟩ ∧
    Always Node.step (fun n => ∀ r, (n.heap r).NoOrphans ∧
      ∀ i ∈ (n.heap r).objectInstances, ∀ attr,
        (n.heap r).Updatable i attr ∨ (n.heap r).Acquirable i attr) Node.new es :=
  ⟨by decide +kernel, no_orphans (by decide +kernel)⟩

/-- **An orphan.**  Federate 1 resigns with an attribute of its own; federate 2
asks for it and does not get it. -/
theorem orphan_left :
    let es := pairUpdating ++ [.manages 0 .resignFederationExecution,
      .serves 1 (.ownership (.attributeOwnershipAcquisition true (wire64 1)
        (some [[0, 0, 0, 1]]) []))]
    ((run Node.step Node.new es).heap 0).owner ⟨1⟩ ⟨1⟩ = some ⟨1⟩ ∧
    ⟨1⟩ ∉ ((run Node.step Node.new es).heap 0).federates := by
  decide +kernel

end Node

end Hla4
