/-
# `Hla4.Rti.Safety.Snapshot` — a restored federation is the saved one, renamed

A snapshot holds federates by name.  Saved from `F` and applied to `G`, it
renames: where `F` has a federate, `G` gets the federate of the same name
(`rename`).  If every federate that `F`'s instances and synchronization points
mention is joined, and `G` has federates of the same names, nothing is lost:

    instances   the same handles, classes and names; registrar and owners renamed
    points      the same labels and tags; participants renamed
    counter     past every restored handle

Both tables of a snapshot and both maps between handles and names are collected
from lists (`HashMap.collect`); what they hold follows from their keys being
distinct.
-/
import Hla4.Rti.Safety.Keyed
import Hla4.Rti.Safety.Owners

namespace Hla4

open Lib

/-- The names of the joined federates. -/
def Federation.names (fed : Federation) : List String := fed.federates.values.map (·.name)

/-- Names are distinct, and every federate mentioned is joined. -/
structure Federation.Restorable (fed : Federation) : Prop where
  names : fed.names.Nodup
  registrars : ∀ inst ∈ fed.objectInstances.values, inst.registrar ∈ fed.federates
  owners : ∀ inst ∈ fed.objectInstances.values, ∀ f ∈ inst.attributeOwners.values, f ∈ fed.federates
  participants : ∀ sp ∈ fed.syncPoints.values, ∀ f ∈ sp.participants.keys, f ∈ fed.federates

/-- Joined federates of the same names. -/
def Federation.SameNames (F G : Federation) : Prop := F.names ⊆ G.names ∧ G.names ⊆ F.names

instance (F G : Federation) : Decidable (F.SameNames G) :=
  inferInstanceAs (Decidable ((∀ name ∈ F.names, name ∈ G.names) ∧ ∀ name ∈ G.names, name ∈ F.names))

/-- What a federation shares with the one it was restored from, up to a renaming
of federates. -/
structure Federation.RestoredFrom (rename : FederateHandle → FederateHandle) (F G : Federation) :
    Prop where
  instances : ∀ i, (G.objectInstances.lookup i).map
      (fun inst => (inst.handle, inst.cls, inst.name, inst.registrar)) =
    (F.objectInstances.lookup i).map
      fun inst => (inst.handle, inst.cls, inst.name, rename inst.registrar)
  owners : ∀ i attr, G.owner i attr = (F.owner i attr).map rename
  syncPoints : ∀ label, (G.syncPoints.lookup label).map (fun sp => (sp.label, sp.tag)) =
    (F.syncPoints.lookup label).map fun sp => (sp.label, sp.tag)
  participants : ∀ label sp sp', F.syncPoints.lookup label = some sp →
    G.syncPoints.lookup label = some sp' →
    ∀ g, g ∈ sp'.participants ↔ ∃ f ∈ sp.participants, rename f = g

variable {F G fed : Federation} {o : IterOrder FederateHandle} {i : ObjectInstanceHandle}
  {inst : ObjectInstance}

/-! ## Handles and names -/

theorem handleToName_eq : F.handleToName o =
    HashMap.collect (fun e => e.2.handle) (fun e => some e.2.name) (F.sessions o) ∅ := rfl

theorem nameToHandle_eq : G.nameToHandle o =
    HashMap.collect (fun e => e.2.name) (fun e => some e.2.handle) (G.sessions o) ∅ := rfl

theorem lookup_handleToName (hF : F.Keyed) (f : FederateHandle) :
    (F.handleToName o).lookup f = (F.federates.lookup f).map (·.name) := by
  have hkey : ∀ e ∈ F.sessions o, e.2.handle = e.1 :=
    fun e he => hF.federates e.1 e.2 (Federation.mem_sessions.mp he)
  have hkeys : (F.sessions o).map (fun e => e.2.handle) = (F.sessions o).map Prod.fst :=
    List.map_congr_left hkey
  rw [handleToName_eq]
  cases hfs : F.federates.lookup f with
  | none =>
    refine HashMap.lookup_collect_of_not_mem ?_
    rw [hkeys, List.mem_map]
    rintro ⟨e, he, rfl⟩
    rw [Federation.mem_sessions.mp he] at hfs
    cases hfs
  | some fs =>
    have hmem : (f, fs) ∈ F.sessions o := Federation.mem_sessions.mpr hfs
    rw [← show (f, fs).2.handle = f from hkey _ hmem]
    refine HashMap.lookup_collect_of_mem (hkeys ▸ Federation.nodup_sessions) hmem ?_
    rfl

theorem entry_of_nameToHandle {name : String} {g : FederateHandle}
    (hg : (G.nameToHandle o).lookup name = some g) :
    ∃ h gs, G.federates.lookup h = some gs ∧ gs.handle = g ∧ gs.name = name := by
  rw [nameToHandle_eq] at hg
  rcases HashMap.lookup_collect_eq_some hg with ⟨e, he, hname, hhandle⟩ | hnone
  · exact ⟨e.1, e.2, Federation.mem_sessions.mp he, Option.some.inj hhandle, hname⟩
  · cases hnone

theorem joined_of_nameToHandle (hG : G.Keyed) {name : String} {g : FederateHandle}
    (hg : (G.nameToHandle o).lookup name = some g) :
    ∃ gs, G.federates.lookup g = some gs ∧ gs.name = name := by
  obtain ⟨h, gs, hgs, rfl, hname⟩ := entry_of_nameToHandle hg
  exact ⟨gs, hG.federates h gs hgs ▸ hgs, hname⟩

theorem mem_nameToHandle {name : String} (hname : name ∈ G.names) : name ∈ G.nameToHandle o := by
  obtain ⟨gs, hgs, rfl⟩ := List.mem_map.mp hname
  obtain ⟨k, hk⟩ := HashMap.mem_values.mp hgs
  have hentry : (k, gs) ∈ G.sessions o := Federation.mem_sessions.mpr hk
  rw [nameToHandle_eq]
  exact HashMap.mem_collect hentry rfl

/-- A name of a joined federate is that of the federate found for it. -/
theorem lookup_nameToHandle (hG : G.Keyed) {name : String} (hname : name ∈ G.names) :
    ∃ g gs, (G.nameToHandle o).lookup name = some g ∧ G.federates.lookup g = some gs ∧
      gs.name = name := by
  obtain ⟨g, hg⟩ := HashMap.mem_iff_lookup.mp (mem_nameToHandle hname)
  obtain ⟨gs, hgs, hsame⟩ := joined_of_nameToHandle hG hg
  exact ⟨g, gs, hg, hgs, hsame⟩

/-- The federate of `G` that bears the name `f` bears in `F`. -/
def renameTo (F G : Federation) (o : IterOrder FederateHandle) (f : FederateHandle) : FederateHandle :=
  (((F.federates.lookup f).map (·.name)).bind (G.nameToHandle o).lookup).getD f

/-- A federate joined in `F`, its name, and the federate of `G` found for it. -/
theorem renameTo_spec (hG : G.Keyed) (hnames : F.names ⊆ G.names) {f : FederateHandle}
    (hf : f ∈ F.federates) :
    ∃ fs gs, F.federates.lookup f = some fs ∧ G.federates.lookup (renameTo F G o f) = some gs ∧
      gs.name = fs.name ∧ (G.nameToHandle o).lookup fs.name = some (renameTo F G o f) := by
  obtain ⟨fs, hfs⟩ := HashMap.mem_iff_lookup.mp hf
  have hname : fs.name ∈ F.names := List.mem_map_of_mem (HashMap.mem_values.mpr ⟨f, hfs⟩)
  obtain ⟨g, gs, hg, hgs, hsame⟩ := lookup_nameToHandle (o := o) hG (hnames hname)
  have hrename : renameTo F G o f = g := by
    rw [renameTo, hfs, Option.map_some, Option.bind_some, hg]
    rfl
  rw [hrename]
  exact ⟨fs, gs, hfs, hgs, hsame, hg⟩

theorem lookup_name_of_joined (hF : F.Keyed) (hG : G.Keyed) (hnames : F.names ⊆ G.names)
    (o o' : IterOrder FederateHandle) {f : FederateHandle} (hf : f ∈ F.federates) :
    ∃ name, (F.handleToName o').lookup f = some name ∧
      (G.nameToHandle o).lookup name = some (renameTo F G o f) := by
  obtain ⟨fs, gs, hfs, _, _, hg⟩ := renameTo_spec (o := o) hG hnames hf
  refine ⟨fs.name, ?_, hg⟩
  rw [lookup_handleToName hF, hfs]
  rfl

/-! ## Instances -/

/-- A saved instance as it is restored, if its registrar is joined. -/
def restored? (names : HashMap String FederateHandle) (ser : SerInstance) : Option ObjectInstance :=
  (names.lookup ser.registrarName).map fun registrar =>
    ⟨⟨ser.handle⟩, ⟨ser.cls⟩, ser.name, registrar,
      Federation.restoreOwners names ser.attributeOwners, ∅⟩

theorem restoreInstances_eq (names : HashMap String FederateHandle) (sers : List SerInstance) :
    (sers.foldl (fun fed ser => fed.restoreInstance names ser) fed).objectInstances =
      HashMap.collect (fun ser => ⟨ser.handle⟩) (restored? names) sers fed.objectInstances := by
  induction sers generalizing fed with
  | nil => rfl
  | cons ser sers ih =>
    have hput : (fed.restoreInstance names ser).objectInstances =
        HashMap.put (fun ser : SerInstance => ⟨ser.handle⟩) (restored? names) fed.objectInstances
          ser := by
      rw [Federation.restoreInstance, HashMap.put, restored?]
      cases names.lookup ser.registrarName <;> rfl
    rw [List.foldl_cons, ih, hput]
    rfl

theorem objectInstances_applySnapshot (snap : FederationSnapshot) :
    (G.applySnapshot o snap).objectInstances =
      HashMap.collect (fun ser => ⟨ser.handle⟩) (restored? (G.nameToHandle o)) snap.instances ∅ :=
  restoreInstances_eq _ _

theorem mem_of_lookup_applySnapshot {snap : FederationSnapshot}
    (h : (G.applySnapshot o snap).objectInstances.lookup i = some inst) :
    ∃ ser ∈ snap.instances, ⟨ser.handle⟩ = i ∧ restored? (G.nameToHandle o) ser = some inst := by
  rw [objectInstances_applySnapshot] at h
  rcases HashMap.lookup_collect_eq_some h with hser | hnone
  · exact hser
  · cases hnone

theorem restoreOwners_eq (names : HashMap String FederateHandle) (owners : List (UInt32 × String)) :
    Federation.restoreOwners names owners =
      HashMap.collect (fun e => ⟨e.1⟩) (fun e => names.lookup e.2) owners ∅ := by
  rw [Federation.restoreOwners, HashMap.collect]
  congr 1
  funext m e
  rw [HashMap.put]
  cases names.lookup e.2 <;> rfl

theorem lookup_restoredOwners (hF : F.Keyed) (hG : G.Keyed) (hnames : F.names ⊆ G.names)
    (o o' : IterOrder FederateHandle) (hown : ∀ f ∈ inst.attributeOwners.values, f ∈ F.federates)
    (attr : AttributeHandle) :
    (Federation.restoreOwners (G.nameToHandle o)
      (Federation.saveInstance (F.handleToName o') inst).attributeOwners).lookup attr =
        (inst.attributeOwners.lookup attr).map (renameTo F G o) := by
  have hkeys : ((Federation.saveInstance (F.handleToName o') inst).attributeOwners.map
      fun e => (⟨e.1⟩ : AttributeHandle)).Sublist inst.attributeOwners.keys := by
    refine filterMap_keys_sublist Sigma.fst (fun e : UInt32 × String => AttributeHandle.mk e.1) ?_ _
    intro e e' he'
    obtain ⟨_, _, rfl⟩ := Option.map_eq_some_iff.mp he'
    rfl
  rw [restoreOwners_eq]
  cases hattr : inst.attributeOwners.lookup attr with
  | none =>
    refine HashMap.lookup_collect_of_not_mem ?_
    intro hmem
    exact AList.lookup_eq_none.mp hattr (AList.mem_keys.mpr (hkeys.subset hmem))
  | some f =>
    obtain ⟨name, hname, hg⟩ := lookup_name_of_joined hF hG hnames o o'
      (hown f (HashMap.mem_values.mpr ⟨attr, hattr⟩))
    have hmem : (attr.raw, name) ∈
        (Federation.saveInstance (F.handleToName o') inst).attributeOwners := by
      refine List.mem_filterMap.mpr ⟨⟨attr, f⟩, AList.mem_lookup_iff.mp hattr, ?_⟩
      rw [hname]
      rfl
    refine HashMap.lookup_collect_of_mem
      (e := (attr.raw, name)) (inst.attributeOwners.keys_nodup.sublist hkeys) hmem ?_
    exact hg

theorem restored?_saveInstance (hF : F.Keyed) (hG : G.Keyed) (hnames : F.names ⊆ G.names)
    (o o' : IterOrder FederateHandle) (hreg : inst.registrar ∈ F.federates) :
    restored? (G.nameToHandle o) (Federation.saveInstance (F.handleToName o') inst) =
      some ⟨inst.handle, inst.cls, inst.name, renameTo F G o inst.registrar,
        Federation.restoreOwners (G.nameToHandle o)
          (Federation.saveInstance (F.handleToName o') inst).attributeOwners, ∅⟩ := by
  obtain ⟨name, hname, hg⟩ := lookup_name_of_joined hF hG hnames o o' hreg
  have hsaved : (Federation.saveInstance (F.handleToName o') inst).registrarName = name := by
    show ((F.handleToName o').lookup inst.registrar).getD _ = name
    rw [hname]
    rfl
  rw [restored?, hsaved, hg]
  rfl

section RoundTrip

variable {env : Env}

/-- The handles of the saved instances are distinct, and are those of the
instances. -/
theorem saved_handles_sublist (hF : F.Keyed) (env : Env) :
    ((F.snapshot env).instances.map fun ser => (⟨ser.handle⟩ : ObjectInstanceHandle)).Sublist
      (env.instances.order F.objectInstances.keys) := by
  have hsub := filterMap_keys_sublist id (fun ser : SerInstance =>
    (⟨ser.handle⟩ : ObjectInstanceHandle)) (f := fun h => (F.objectInstances.lookup h).map
      (Federation.saveInstance (F.handleToName env.federates))) ?_
      (env.instances.order F.objectInstances.keys)
  · rw [List.map_id] at hsub
    exact hsub
  · intro h ser hser
    obtain ⟨inst, hinst, rfl⟩ := Option.map_eq_some_iff.mp hser
    exact hF.instances h inst hinst

theorem mem_saved_instances (env : Env) (hi : F.objectInstances.lookup i = some inst) :
    Federation.saveInstance (F.handleToName env.federates) inst ∈ (F.snapshot env).instances := by
  refine List.mem_filterMap.mpr ⟨i, ?_, ?_⟩
  · exact env.instances.mem_order.mpr (AList.mem_keys.mp (HashMap.mem_of_lookup hi))
  · rw [hi]
    rfl

theorem lookup_restoredInstances (hF : F.Keyed) (hG : G.Keyed) (hnames : F.names ⊆ G.names)
    (hrest : F.Restorable) (i : ObjectInstanceHandle) :
    (G.applySnapshot o (F.snapshot env)).objectInstances.lookup i =
      (F.objectInstances.lookup i).map fun inst =>
        ⟨inst.handle, inst.cls, inst.name, renameTo F G o inst.registrar,
          Federation.restoreOwners (G.nameToHandle o)
            (Federation.saveInstance (F.handleToName env.federates) inst).attributeOwners, ∅⟩ := by
  have hsub := saved_handles_sublist hF env
  rw [objectInstances_applySnapshot]
  cases hi : F.objectInstances.lookup i with
  | none =>
    refine HashMap.lookup_collect_of_not_mem ?_
    intro hmem
    have hkey := (env.instances.mem_order).mp (hsub.subset hmem)
    exact AList.lookup_eq_none.mp hi (AList.mem_keys.mpr hkey)
  | some inst =>
    have hmem := mem_saved_instances env hi
    have hval := restored?_saveInstance hF hG hnames o env.federates
      (hrest.registrars inst (HashMap.mem_values.mpr ⟨i, hi⟩))
    have hlook := HashMap.lookup_collect_of_mem (m := ∅)
      ((env.instances.nodup_order F.objectInstances.keys_nodup).sublist hsub) hmem hval
    have hkey : (⟨(Federation.saveInstance (F.handleToName env.federates) inst).handle⟩ :
        ObjectInstanceHandle) = i := hF.instances i inst hi
    rw [hkey] at hlook
    exact hlook

/-! ## Synchronization points -/

theorem syncPoints_applySnapshot (snap : FederationSnapshot) :
    (G.applySnapshot o snap).syncPoints = HashMap.collect SerSyncPoint.label
      (fun ser => some ⟨ser.label, ser.tag,
        HashSet.ofList (ser.participants.filterMap (G.nameToHandle o).lookup), ∅, ∅⟩)
      snap.syncPoints ∅ := rfl

theorem lookup_restoredSyncPoints (hF : F.Keyed) (label : String) :
    (G.applySnapshot o (F.snapshot env)).syncPoints.lookup label =
      (F.syncPoints.lookup label).map fun sp =>
        ⟨sp.label, sp.tag, HashSet.ofList ((sp.participants.keys.filterMap
          (F.handleToName env.federates).lookup).filterMap (G.nameToHandle o).lookup), ∅, ∅⟩ := by
  have hkeys : (F.snapshot env).syncPoints.map SerSyncPoint.label = F.syncPoints.keys := by
    show (F.syncPoints.values.map _).map _ = _
    rw [List.map_map]
    exact hF.syncPoints.map_values
  rw [syncPoints_applySnapshot]
  cases hsp : F.syncPoints.lookup label with
  | none =>
    refine HashMap.lookup_collect_of_not_mem ?_
    rw [hkeys]
    exact fun hmem => AList.lookup_eq_none.mp hsp (AList.mem_keys.mpr hmem)
  | some sp =>
    have hmem : (⟨sp.label, sp.tag, sp.participants.keys.filterMap
        (F.handleToName env.federates).lookup⟩ : SerSyncPoint) ∈ (F.snapshot env).syncPoints :=
      List.mem_map_of_mem (HashMap.mem_values.mpr ⟨label, hsp⟩)
    rw [← show sp.label = label from hF.syncPoints label sp hsp]
    refine HashMap.lookup_collect_of_mem (hkeys ▸ F.syncPoints.keys_nodup) hmem ?_
    rfl

theorem mem_restoredParticipants (hF : F.Keyed) (hG : G.Keyed) (hnames : F.names ⊆ G.names)
    {participants : HashSet FederateHandle} (hjoined : ∀ f ∈ participants.keys, f ∈ F.federates)
    {g : FederateHandle} :
    g ∈ HashSet.ofList ((participants.keys.filterMap
        (F.handleToName env.federates).lookup).filterMap (G.nameToHandle o).lookup) ↔
      ∃ f ∈ participants, renameTo F G o f = g := by
  rw [HashSet.mem_ofList]
  simp only [List.mem_filterMap]
  constructor
  · rintro ⟨name, ⟨f, hf, hname⟩, hg⟩
    obtain ⟨name', hname', hg'⟩ :=
      lookup_name_of_joined hF hG hnames o env.federates (hjoined f hf)
    cases hname.symm.trans hname'
    exact ⟨f, AList.mem_keys.mpr hf, Option.some.inj (hg'.symm.trans hg)⟩
  · rintro ⟨f, hf, rfl⟩
    have hkey := AList.mem_keys.mp hf
    obtain ⟨name, hname, hg⟩ :=
      lookup_name_of_joined hF hG hnames o env.federates (hjoined f hkey)
    exact ⟨name, ⟨f, hkey, hname⟩, hg⟩

/-! ## The counter -/

theorem lt_succ_of_lt_max {n : UInt64} (h : n.toNat < 2 ^ 64 - 1) : n < n + 1 := by
  rw [UInt64.lt_iff_toNat_lt, UInt64.toNat_add]
  have : (1 : UInt64).toNat = 1 := rfl
  omega

/-- The counter moves past every restored handle. -/
theorem restoreInstances_counter (names : HashMap String FederateHandle) (sers : List SerInstance)
    (hmax : ∀ ser ∈ sers, ser.handle.toNat < 2 ^ 64 - 1) :
    fed.nextObjectId ≤
        (sers.foldl (fun fed ser => fed.restoreInstance names ser) fed).nextObjectId ∧
      ∀ ser ∈ sers, (restored? names ser).isSome = true → ser.handle <
        (sers.foldl (fun fed ser => fed.restoreInstance names ser) fed).nextObjectId := by
  induction sers generalizing fed with
  | nil => exact ⟨UInt64.le_refl _, fun _ h => by cases h⟩
  | cons ser sers ih =>
    obtain ⟨hle, hlt⟩ := @ih (fed.restoreInstance names ser)
      fun s hs => hmax s (List.mem_cons_of_mem _ hs)
    have hsucc := lt_succ_of_lt_max (hmax ser List.mem_cons_self)
    -- the counter after this instance
    have hstep : fed.nextObjectId ≤ (fed.restoreInstance names ser).nextObjectId ∧
        ((restored? names ser).isSome = true →
          ser.handle < (fed.restoreInstance names ser).nextObjectId) := by
      rw [Federation.restoreInstance, restored?]
      cases names.lookup ser.registrarName with
      | none => exact ⟨UInt64.le_refl _, fun h => by cases h⟩
      | some =>
        dsimp only
        split
        · next hge =>
            exact ⟨UInt64.le_of_lt (UInt64.lt_of_le_of_lt hge hsucc), fun _ => hsucc⟩
        · next hlt => exact ⟨UInt64.le_refl _, fun _ => UInt64.not_le.mp hlt⟩
    refine ⟨UInt64.le_trans hstep.1 hle, ?_⟩
    intro s hs hsome
    rcases List.mem_cons.mp hs with rfl | hs
    · exact UInt64.lt_of_lt_of_le (hstep.2 hsome) hle
    · exact hlt s hs hsome

theorem restored_lt_counter (hF : F.Keyed) (hG : G.Keyed) (hnames : F.names ⊆ G.names)
    (hrest : F.Restorable) (hmax : ∀ i ∈ F.objectInstances.keys, i.raw.toNat < 2 ^ 64 - 1)
    (hi : i ∈ (G.applySnapshot o (F.snapshot env)).objectInstances) :
    i.raw < (G.applySnapshot o (F.snapshot env)).nextObjectId := by
  obtain ⟨inst', hinst'⟩ := HashMap.mem_iff_lookup.mp hi
  rw [lookup_restoredInstances hF hG hnames hrest, Option.map_eq_some_iff] at hinst'
  obtain ⟨inst, hinst, _⟩ := hinst'
  have hmem : Federation.saveInstance (F.handleToName env.federates) inst ∈
      (F.snapshot env).instances := mem_saved_instances env hinst
  have hsers : ∀ ser ∈ (F.snapshot env).instances, ser.handle.toNat < 2 ^ 64 - 1 := by
    intro ser hser
    have hkey := (saved_handles_sublist hF env).subset (List.mem_map_of_mem hser)
    exact hmax _ (env.instances.mem_order.mp hkey)
  have hsome : (restored? (G.nameToHandle o)
      (Federation.saveInstance (F.handleToName env.federates) inst)).isSome = true := by
    rw [restored?_saveInstance hF hG hnames o env.federates
      (hrest.registrars inst (HashMap.mem_values.mpr ⟨i, hinst⟩))]
    rfl
  have hlt := (@restoreInstances_counter { G with objectInstances := ∅ } (G.nameToHandle o)
    (F.snapshot env).instances hsers).2 _ hmem hsome
  have hhandle : inst.handle.raw = i.raw := congrArg _ (hF.instances i inst hinst)
  rw [← hhandle]
  exact hlt

end RoundTrip

/-- A registration leaves the instances below the counter alone. -/
theorem lookup_registerObjectInstance {c : Caller} {cls : WireField} {name : Option String}
    (hi : i.raw < fed.nextObjectId) :
    (registerObjectInstance c fed cls name).federation.objectInstances.lookup i =
      fed.objectInstances.lookup i := by
  have hne : i ≠ ⟨fed.nextObjectId⟩ := by
    rintro rfl
    exact UInt64.lt_irrefl _ hi
  rw [registerObjectInstance]
  split
  · rfl
  · dsimp only
    split
    · rfl
    · exact (HashMap.lookup_insert_eq ..).trans (if_neg hne)

/-- **Save and restore round trip.**  Every federation of every node files its
records under their own keys; and for federations `F` and `G` that do, if the
federates of `F` have distinct names and every federate it mentions is joined,
and `G` has federates of the same names, then the snapshot of `F` applied to `G`
makes of `G` a copy of `F` up to a renaming that keeps names; and if the handles
are below the last, the counter is past them all, so that a registration, now
or when the counter is higher, leaves the restored instances alone. -/
theorem Federation.snapshot_roundTrip :
    (∀ es r, ((run Node.step Node.new es).heap r).Keyed) ∧
    ∀ (F G : Federation) (env : Env) (o : IterOrder FederateHandle), F.Keyed → G.Keyed →
      F.Restorable → F.SameNames G →
      (∃ rename, (∀ f ∈ F.federates, ∃ fs gs, F.federates.lookup f = some fs ∧
          G.federates.lookup (rename f) = some gs ∧ gs.name = fs.name) ∧
        F.RestoredFrom rename (G.applySnapshot o (F.snapshot env))) ∧
      ((∀ i ∈ F.objectInstances.keys, i.raw.toNat < 2 ^ 64 - 1) →
        (∀ i ∈ (G.applySnapshot o (F.snapshot env)).objectInstances,
          i.raw < (G.applySnapshot o (F.snapshot env)).nextObjectId) ∧
        ∀ H c cls name, (G.applySnapshot o (F.snapshot env)).nextObjectId ≤ H.nextObjectId →
          ∀ i ∈ (G.applySnapshot o (F.snapshot env)).objectInstances,
            (registerObjectInstance c H cls name).federation.objectInstances.lookup i =
              H.objectInstances.lookup i) := by
  refine ⟨Node.keyed, ?_⟩
  intro F G env o hF hG hrest hsame
  have hnames := hsame.1
  refine ⟨⟨renameTo F G o, ?_, ?_⟩, ?_⟩
  · intro f hf
    obtain ⟨fs, gs, hfs, hgs, hname, _⟩ := renameTo_spec (o := o) hG hnames hf
    exact ⟨fs, gs, hfs, hgs, hname⟩
  · exact {
      instances := by
        intro i
        rw [lookup_restoredInstances hF hG hnames hrest, Option.map_map]
        rfl
      owners := by
        intro i attr
        rw [Federation.owner, Federation.owner, lookup_restoredInstances hF hG hnames hrest]
        cases hi : F.objectInstances.lookup i with
        | none => rfl
        | some inst =>
          exact lookup_restoredOwners hF hG hnames o env.federates
            (hrest.owners inst (HashMap.mem_values.mpr ⟨i, hi⟩)) attr
      syncPoints := by
        intro label
        rw [lookup_restoredSyncPoints hF, Option.map_map]
        rfl
      participants := by
        intro label sp sp' hsp hsp' g
        rw [lookup_restoredSyncPoints hF, hsp, Option.map_some] at hsp'
        cases hsp'
        exact mem_restoredParticipants hF hG hnames
          (hrest.participants sp (HashMap.mem_values.mpr ⟨label, hsp⟩)) }
  · intro hmax
    have hlt := fun i (hi : i ∈ (G.applySnapshot o (F.snapshot env)).objectInstances) =>
      restored_lt_counter hF hG hnames hrest hmax hi
    refine ⟨hlt, ?_⟩
    intro H c cls name hle i hi
    exact lookup_registerObjectInstance (UInt64.lt_of_lt_of_le (hlt i hi) hle)

/-- Federates of these names join, in this order. -/
def joinedAs (a b : String) : List NodeEvent :=
  [.opens, .manages 0 (.createFederationExecution .withModules "f" [.file "m" []]),
    .manages 0 (.joinFederationExecution .withName a "f"), .opens,
    .manages 1 (.joinFederationExecution .withName b "f")]

/-- The federate `a` has registered an instance, and a point for both is
pending. -/
def savedFederation : Federation :=
  (run Node.step Node.new (joinedAs "a" "b" ++
    [.serves 0 (.declaration (.publishObjectClassAttributes (wire32 1) (some [[0, 0, 0, 1]]))),
      .serves 0 (.object (.registerObjectInstance (wire32 1))),
      .serves 0 (.syncPoint (.registerFederationSynchronizationPoint "p" []))])).heap 0

/-- The same names under other handles, and an instance of `b` to lose. -/
def otherFederation : Federation :=
  (run Node.step Node.new (joinedAs "b" "a" ++
    [.serves 0 (.declaration (.publishObjectClassAttributes (wire32 1) (some [[0, 0, 0, 1]]))),
      .serves 0 (.object (.registerObjectInstance (wire32 1))),
      .serves 0 (.object (.registerObjectInstance (wire32 1)))])).heap 0

theorem Federation.snapshot_roundTrip_swapped :
    savedFederation.owner ⟨1⟩ ⟨1⟩ = some ⟨1⟩ ∧
    (otherFederation.applySnapshot .stored (savedFederation.snapshot .plain)).owner ⟨1⟩ ⟨1⟩ =
      some ⟨2⟩ ∧
    ∃ rename, savedFederation.RestoredFrom rename
      (otherFederation.applySnapshot .stored (savedFederation.snapshot .plain)) := by
  refine ⟨by decide +kernel, by decide +kernel, ?_⟩
  have hrest : savedFederation.Restorable :=
    ⟨by decide +kernel, by decide +kernel, by decide +kernel, by decide +kernel⟩
  obtain ⟨rename, _, hfrom⟩ := (Federation.snapshot_roundTrip.2 savedFederation otherFederation
    .plain .stored (Node.keyed _ 0) (Node.keyed _ 0) hrest (by decide +kernel)).1
  exact ⟨rename, hfrom⟩

end Hla4
