/-
# `Hla4.Rti.Safety.Privileges` — who a restored instance belongs to

The registrar of an instance may delete it, the owner of an attribute may
update it.  A snapshot carries both by name.  An owner that has left is not
saved; a registrar that has left is saved under the name `<unknown>`, and a name
is free for anybody to ask for.  Restored into `G`, the snapshot of `F` therefore
makes nobody a registrar or owner who did not bear the name of the one joined in
`F`, exactly unless `G` has a federate called `<unknown>` and an instance of `F`
has lost its registrar (`noStranger_iff`).
-/
import Hla4.Rti.Safety.Snapshot

namespace Hla4

open Lib

namespace Federation

/-- A joined federate has the handle and the name. -/
def Bears (fed : Federation) (h : FederateHandle) (name : String) : Prop :=
  ∃ fs ∈ fed.federates.values, fs.handle = h ∧ fs.name = name

/-- In the federation `R` restored from `F` into `G`, the registrar of every
instance is a federate of `G` named as the joined registrar in `F`, and every
owner of an attribute one named as its joined owner in `F`. -/
structure NoStranger (F G R : Federation) : Prop where
  registrar : ∀ i inst', R.objectInstances.lookup i = some inst' →
    ∃ inst fs, F.objectInstances.lookup i = some inst ∧
      F.federates.lookup inst.registrar = some fs ∧ G.Bears inst'.registrar fs.name
  owner : ∀ i attr g, R.owner i attr = some g →
    ∃ f fs, F.owner i attr = some f ∧ F.federates.lookup f = some fs ∧ G.Bears g fs.name

variable {F G : Federation} {o : IterOrder FederateHandle} {env : Env}

theorem bears_of_nameToHandle {name : String} {g : FederateHandle}
    (hg : (G.nameToHandle o).lookup name = some g) : G.Bears g name := by
  obtain ⟨h, gs, hgs, hhandle, hname⟩ := entry_of_nameToHandle hg
  exact ⟨gs, HashMap.mem_values.mpr ⟨h, hgs⟩, hhandle, hname⟩

theorem Bears.mem_names {h : FederateHandle} {name : String} (hb : G.Bears h name) :
    name ∈ G.names := by
  obtain ⟨gs, hgs, -, rfl⟩ := hb
  exact List.mem_map_of_mem hgs

theorem restored_origin (hF : F.Keyed) {i : ObjectInstanceHandle} {inst' : ObjectInstance}
    (h : (G.applySnapshot o (F.snapshot env)).objectInstances.lookup i = some inst') :
    ∃ inst, F.objectInstances.lookup i = some inst ∧
      restored? (G.nameToHandle o) (saveInstance (F.handleToName env.federates) inst) = some inst' := by
  obtain ⟨ser, hser, hkey, hval⟩ := mem_of_lookup_applySnapshot h
  obtain ⟨k, -, hk⟩ := List.mem_filterMap.mp hser
  obtain ⟨inst, hinst, rfl⟩ := Option.map_eq_some_iff.mp hk
  have hik : k = i := (hF.instances k inst hinst).symm.trans hkey
  exact ⟨inst, hik ▸ hinst, hval⟩

/-- An instance whose saved registrar is found in `G` is restored. -/
theorem lookup_restored (hF : F.Keyed) {i : ObjectInstanceHandle} {inst inst' : ObjectInstance}
    (hi : F.objectInstances.lookup i = some inst)
    (h : restored? (G.nameToHandle o) (saveInstance (F.handleToName env.federates) inst) = some inst') :
    (G.applySnapshot o (F.snapshot env)).objectInstances.lookup i = some inst' := by
  have hlook := HashMap.lookup_collect_of_mem (m := ∅)
    ((env.instances.nodup_order F.objectInstances.keys_nodup).sublist (saved_handles_sublist hF env))
    (mem_saved_instances env hi) h
  rw [objectInstances_applySnapshot, ← hF.instances i inst hi]
  exact hlook

theorem registrarName_eq (hF : F.Keyed) (inst : ObjectInstance) :
    (saveInstance (F.handleToName env.federates) inst).registrarName =
      ((F.federates.lookup inst.registrar).map (·.name)).getD "<unknown>" := by
  show ((F.handleToName env.federates).lookup inst.registrar).getD _ = _
  rw [lookup_handleToName hF]

/-- An owner that is restored was saved, so it was joined. -/
theorem restored_owner (hF : F.Keyed) {inst : ObjectInstance} {attr : AttributeHandle}
    {g : FederateHandle}
    (h : (restoreOwners (G.nameToHandle o)
      (saveInstance (F.handleToName env.federates) inst).attributeOwners).lookup attr = some g) :
    ∃ f fs, inst.attributeOwners.lookup attr = some f ∧ F.federates.lookup f = some fs ∧
      G.Bears g fs.name := by
  rw [restoreOwners_eq] at h
  rcases HashMap.lookup_collect_eq_some h with ⟨e, he, hkey, hg⟩ | hnone
  · obtain ⟨⟨k, f⟩, hentry, hsaved⟩ := List.mem_filterMap.mp he
    obtain ⟨name, hname, rfl⟩ := Option.map_eq_some_iff.mp hsaved
    have hk : k = attr := hkey
    rw [lookup_handleToName hF] at hname
    obtain ⟨fs, hfs, rfl⟩ := Option.map_eq_some_iff.mp hname
    exact ⟨f, fs, hk ▸ AList.mem_lookup_iff.mpr hentry, hfs, bears_of_nameToHandle hg⟩
  · cases hnone

/-- **Restore hands nothing to a stranger**, exactly unless a federate bears the
name that stands for a registrar that has left. -/
theorem noStranger_iff (es : List NodeEvent) (r : FedRef) (G : Federation) (env : Env)
    (o : IterOrder FederateHandle) :
    let F := (run Node.step Node.new es).heap r
    F.NoStranger G (G.applySnapshot o (F.snapshot env)) ↔
      ("<unknown>" ∈ G.names → ∀ inst ∈ F.objectInstances.values, inst.registrar ∈ F.federates) := by
  intro F
  have hF : F.Keyed := Node.keyed es r
  constructor
  · intro h hname inst hinst
    obtain ⟨i, hi⟩ := HashMap.mem_values.mp hinst
    by_contra hleft
    -- saved as unknown, the instance goes to whoever is called so
    have hunknown : (saveInstance (F.handleToName env.federates) inst).registrarName = "<unknown>" := by
      rw [registrarName_eq hF, AList.lookup_eq_none.mpr hleft]
      rfl
    obtain ⟨g, hg⟩ := HashMap.mem_iff_lookup.mp (mem_nameToHandle (o := o) hname)
    obtain ⟨inst', hrestored⟩ : ∃ inst', restored? (G.nameToHandle o)
        (saveInstance (F.handleToName env.federates) inst) = some inst' := by
      rw [restored?, hunknown, hg]
      exact ⟨_, rfl⟩
    obtain ⟨inst₀, fs, hinst₀, hfs, -⟩ := h.registrar i inst' (lookup_restored hF hi hrestored)
    cases hi.symm.trans hinst₀
    exact hleft (HashMap.mem_of_lookup hfs)
  · intro hcond
    constructor
    · intro i inst' hi'
      obtain ⟨inst, hi, hrestored⟩ := restored_origin hF hi'
      obtain ⟨g, hg, rfl⟩ := Option.map_eq_some_iff.mp hrestored
      have hbears := bears_of_nameToHandle hg
      rw [registrarName_eq hF] at hbears
      cases hfs : F.federates.lookup inst.registrar with
      | some fs =>
        rw [hfs] at hbears
        exact ⟨inst, fs, hi, hfs, hbears⟩
      | none =>
        rw [hfs] at hbears
        have hjoined := hcond hbears.mem_names inst (HashMap.mem_values.mpr ⟨i, hi⟩)
        exact absurd hjoined (AList.lookup_eq_none.mp hfs)
    · intro i attr g hg
      obtain ⟨inst', hi', hg⟩ := Option.bind_eq_some_iff.mp hg
      obtain ⟨inst, hi, hrestored⟩ := restored_origin hF hi'
      obtain ⟨registrar, -, rfl⟩ := Option.map_eq_some_iff.mp hrestored
      obtain ⟨f, fs, hf, hfs, hbears⟩ := restored_owner hF hg
      refine ⟨f, fs, ?_, hfs, hbears⟩
      rw [Federation.owner, hi]
      exact hf

end Federation

/-- The federate `a` registers an instance and leaves; the other one is called
`<unknown>`. -/
def registrarLeft : List NodeEvent :=
  joinedAs "a" "<unknown>" ++
    [.serves 0 (.declaration (.publishObjectClassAttributes (wire32 1) (some [[0, 0, 0, 1]]))),
      .serves 0 (.object (.registerObjectInstance (wire32 1))),
      .manages 0 .resignFederationExecution]

/-- Restored into the same federation, the instance belongs to the other one,
whose name its registrar never bore. -/
theorem unknown_inherits :
    let F := (run Node.step Node.new registrarLeft).heap 0
    let R := F.applySnapshot .stored (F.snapshot .plain)
    F.names = ["<unknown>"] ∧ (F.objectInstances.lookup ⟨1⟩).map (·.registrar) = some ⟨1⟩ ∧
      (R.objectInstances.lookup ⟨1⟩).map (·.registrar) = some ⟨2⟩ ∧ ¬ F.NoStranger F R := by
  intro F R
  have hregistrar : (F.objectInstances.lookup ⟨1⟩).map (·.registrar) = some ⟨1⟩ := by decide +kernel
  have hstranger : (R.objectInstances.lookup ⟨1⟩).map (·.registrar) = some ⟨2⟩ := by decide +kernel
  have hleft : F.federates.lookup ⟨1⟩ = none := by decide +kernel
  refine ⟨by decide +kernel, hregistrar, hstranger, fun h => ?_⟩
  obtain ⟨inst', hinst', -⟩ := Option.map_eq_some_iff.mp hstranger
  obtain ⟨inst, fs, hinst, hfs, -⟩ := h.registrar ⟨1⟩ inst' hinst'
  have hone : inst.registrar = ⟨1⟩ := by
    rw [hinst] at hregistrar
    exact Option.some.inj hregistrar
  rw [hone, hleft] at hfs
  cases hfs

end Hla4
