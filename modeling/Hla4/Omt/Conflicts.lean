/-
# `Hla4.Omt.Conflicts` — definitions that contradict each other

A merge is to refuse two different definitions of one attribute or parameter.
What it compares is each member of a LATER definition of a class with the list
merged so far; the first definition is copied as it is.  So the merged list is
the first definition's, followed by members of new names (`FromFirst`), and it
is as good as its beginning:

    the first definition says one thing of each name   so do all definitions
    the first definition lists no name twice           nor does the merged class

Conflicts are excluded exactly where this holds of the first definition of every
class, the second line for the classes that get a handle (`merge_noConflict_iff`): those
whose parents lead to a root (`Rooted`).
-/
import Hla4.Omt.Union

namespace Hla4.Omt

open Lib

section Generic

variable {D M H HM R : Type} {k : ClassKind D M H HM} {rest : D → R}

/-- No two members of one name. -/
def Distinct (k : ClassKind D M H HM) (members : List M) : Prop :=
  (members.map k.memberName).Nodup

/-- Members of one name are the same member. -/
def OneMeaning (k : ClassKind D M H HM) (members : List M) : Prop :=
  ∀ m ∈ members, ∀ n ∈ members, k.memberName m = k.memberName n → m = n

/-- No conflict is left: the merged classes list no name twice, what they list is
what every definition says, and no two definitions of one class differ on a
name. -/
structure Coherent (k : ClassKind D M H HM) (definitions : List D) (classes : HashMap H D)
    [DecidableEq H] : Prop where
  distinct : ∀ h u, classes.lookup h = some u → Distinct k (k.members u)
  merged : ∀ h u, classes.lookup h = some u → ∀ d ∈ definitions, k.name d = k.name u →
    ∀ m ∈ k.members d, (k.members u).find? (fun n => k.memberName n = k.memberName m) = some m
  agree : ∀ d ∈ definitions, ∀ e ∈ definitions, k.name d = k.name e →
    ∀ m ∈ k.members d, ∀ n ∈ k.members e, k.memberName m = k.memberName n → m = n

/-- The first definition of a class. -/
def firstNamed (k : ClassKind D M H HM) (definitions : List D) (name : String) : Option D :=
  definitions.find? fun d => k.name d = name

/-- The first definition of each class says one thing of each name, and lists
none twice if the parents of the class lead to a root. -/
def FirstsCoherent (k : ClassKind D M H HM) (definitions : List D) : Prop :=
  ∀ name d, firstNamed k definitions name = some d → OneMeaning k (k.members d) ∧
    (Rooted k {d | d ∈ definitions} name → Distinct k (k.members d))

theorem Distinct.oneMeaning {members : List M} (h : Distinct k members) : OneMeaning k members :=
  fun _ hm _ hn hname => List.inj_on_of_nodup_map h hm hn hname

/-- If members of one name are the same, each is found by its name. -/
theorem OneMeaning.find_iff {members : List M} (h : OneMeaning k members) {a : String} {m : M} :
    members.find? (fun m => k.memberName m = a) = some m ↔ m ∈ members ∧ k.memberName m = a := by
  constructor
  · intro hfind
    exact ⟨List.mem_of_find?_eq_some hfind, by simpa using List.find?_some hfind⟩
  · rintro ⟨hm, hname⟩
    obtain ⟨n, hfind, hn, hsame⟩ :=
      exists_find? (p := fun m => k.memberName m = a) hm (decide_eq_true hname)
    rw [hfind, h n hn m hm ((of_decide_eq_true hsame).trans hname.symm)]

theorem firstNamed_append {met : List D} {cls : D} (name : String) :
    firstNamed k (met ++ [cls]) name =
      (firstNamed k met name).or (if k.name cls = name then some cls else none) := by
  rw [firstNamed, List.find?_append, firstNamed]
  congr 1
  by_cases h : k.name cls = name
  · simp [h]
  · simp [h]

theorem mem_of_firstNamed {definitions : List D} {name : String} {d : D}
    (h : firstNamed k definitions name = some d) :
    d ∈ definitions ∧ k.name d = name :=
  ⟨List.mem_of_find?_eq_some h, by simpa using List.find?_some h⟩

/-! ## The list that is merged -/

/-- Merging members adds to the end of the list, and keeps what it says of each
name. -/
structure Extends (k : ClassKind D M H HM) (target target' : List M) : Prop where
  begins : target <+: target'
  oneMeaning : OneMeaning k target → OneMeaning k target'
  distinct : Distinct k target → Distinct k target'

theorem Extends.refl (target : List M) : Extends k target target := ⟨List.prefix_refl _, id, id⟩

theorem Extends.trans {a b c : List M} (hab : Extends k a b) (hbc : Extends k b c) : Extends k a c :=
  ⟨hab.begins.trans hbc.begins, fun h => hbc.oneMeaning (hab.oneMeaning h),
    fun h => hbc.distinct (hab.distinct h)⟩

/-- Every merged class begins with the first definition of its name, and has the
rest from it. -/
structure FromFirst (k : ClassKind D M H HM) (rest : D → R) (met : List D) (st : Merging D) :
    Prop where
  absent : ∀ name, st.merged.lookup name = none → firstNamed k met name = none
  first : ∀ name u, st.merged.lookup name = some u →
    ∃ d, firstNamed k met name = some d ∧ Extends k (k.members d) (k.members u) ∧ rest u = rest d

theorem fromFirst_empty : FromFirst k rest [] Merging.empty :=
  ⟨fun _ _ => rfl, fun name u h => by simp [Merging.empty] at h⟩

/-! ## Merging -/

variable [DecidableEq M]

theorem extends_mergeMember {className : String} {m : M} {target target' : List M}
    (h : mergeMember k className m target = .ok target') : Extends k target target' := by
  rcases mergeMember_ok h with ⟨rfl, -⟩ | ⟨rfl, hnew⟩
  · exact .refl _
  · refine ⟨List.prefix_append .., fun hone => ?_, fun hd => ?_⟩
    · intro a ha b hb hname
      rw [List.mem_append, List.mem_singleton] at ha hb
      rcases ha with ha | rfl <;> rcases hb with hb | rfl
      · exact hone a ha b hb hname
      · exact absurd hname (hnew a ha)
      · exact absurd hname.symm (hnew b hb)
      · rfl
    · rw [Distinct, List.map_append]
      refine List.Nodup.append hd (List.nodup_singleton _) ?_
      rw [List.disjoint_right]
      simpa using hnew

theorem extends_mergeMembers {className : String} {members target target' : List M}
    (h : mergeMembers k className members target = .ok target') : Extends k target target' :=
  Yields.foldlM (P := Extends k target) (fun _ _ hext _ hm => hext.trans (extends_mergeMember hm))
    (.refl target) target' h

theorem FromFirst.mergeClass (hk : k.Keeps rest) {met : List D} {cls : D} {st st' : Merging D}
    (h : FromFirst k rest met st) (hst : mergeClass k cls st = .ok st') :
    FromFirst k rest (met ++ [cls]) st' := by
  obtain ⟨u, hu, hcase⟩ := mergeClass_ok hk hst
  constructor
  · intro name hnone
    rw [hu, HashMap.lookup_insert_eq] at hnone
    split at hnone
    · cases hnone
    · next hne => rw [firstNamed_append, h.absent name hnone, if_neg (Ne.symm hne), Option.or_none]
  · intro name v hv
    rw [hu, HashMap.lookup_insert_eq] at hv
    rw [firstNamed_append]
    split at hv
    · next he =>
        cases hv
        subst he
        rcases hcase with ⟨hnone, rfl⟩ | ⟨e, he, -, hmembers, -, hrest⟩
        · exact ⟨u, by rw [h.absent _ hnone, if_pos rfl, Option.none_or], .refl _, rfl⟩
        · obtain ⟨d, hd, hext, hde⟩ := h.first _ e he
          exact ⟨d, by rw [hd, Option.some_or], hext.trans (extends_mergeMembers hmembers),
            hrest.trans hde⟩
    · next hne =>
        obtain ⟨d, hd, hext⟩ := h.first name v hv
        exact ⟨d, by rw [hd, Option.some_or], hext⟩

theorem FromFirst.mergeClasses (hk : k.Keeps rest) {met definitions : List D} {st st' : Merging D}
    (h : FromFirst k rest met st) (hst : Omt.mergeClasses k definitions st = .ok st') :
    FromFirst k rest (met ++ definitions) st' := by
  induction definitions generalizing met st with
  | nil =>
    cases hst
    rw [List.append_nil]
    exact h
  | cons cls definitions ih =>
    obtain ⟨st₁, hcls, hrest⟩ := mergeClasses_cons.mp hst
    have hlater := ih (h.mergeClass hk hcls) hrest
    rw [List.append_assoc] at hlater
    exact hlater

variable [DecidableEq H] {definitions : List D} {st : Merging D} {classes : HashMap H D}
  {classTable : HashMap String H}

theorem coherent_iff (hk : k.Keeps rest) (hst : mergeClasses k definitions .empty = .ok st)
    (hf : Filed k st classes classTable) :
    Coherent k definitions classes ↔ FirstsCoherent k definitions := by
  have hfirst : FromFirst k rest definitions st := fromFirst_empty.mergeClasses hk hst
  have hunites := unites_of_mergeClasses hk hst
  constructor
  · intro h name d hd
    obtain ⟨hmem, hname⟩ := mem_of_firstNamed hd
    refine ⟨fun m hm n hn => h.agree d hmem d hmem rfl m hm n hn, fun hroot => ?_⟩
    -- the merged class begins with `d`
    obtain ⟨g, hg⟩ := HashMap.mem_iff_lookup.mp ((hf.reached name).mpr (hunites.rooted_iff.mp hroot))
    obtain ⟨u, hu, rfl⟩ := (hf.names name g).mp hg
    obtain ⟨d', hd', hext, -⟩ := hfirst.first _ u (hf.merged g u hu)
    cases hd.symm.trans hd'
    exact (h.distinct g u hu).sublist (hext.begins.sublist.map k.memberName)
  · intro h
    -- every member of a definition is in the merged class of its name
    have hmember : ∀ d ∈ definitions, ∃ u, st.merged.lookup (k.name d) = some u ∧
        OneMeaning k (k.members u) ∧ ∀ m ∈ k.members d, m ∈ k.members u := by
      intro d hd
      obtain ⟨u, hu⟩ := HashMap.mem_iff_lookup.mp ((hunites.mem_iff (k.name d)).mpr ⟨d, hd, rfl⟩)
      obtain ⟨first, hfd, hext, -⟩ := hfirst.first _ u hu
      refine ⟨u, hu, hext.oneMeaning (h _ first hfd).1, fun m hm => ?_⟩
      exact ((hunites.united _ u hu).members m).mpr ⟨d, ⟨hd, rfl⟩, hm⟩
    have hdistinct : ∀ g u, classes.lookup g = some u → Distinct k (k.members u) := by
      intro g u hu
      obtain ⟨d, hd, hext, -⟩ := hfirst.first _ u (hf.merged g u hu)
      have hfiled := HashMap.mem_of_lookup ((hf.names _ g).mpr ⟨u, hu, rfl⟩)
      exact hext.distinct ((h _ d hd).2 (hunites.rooted_iff.mpr ((hf.reached _).mp hfiled)))
    refine ⟨hdistinct, fun g u hu d hd hname m hm => ?_, fun d hd e he hname m hm n hn => ?_⟩
    · obtain ⟨u', hu', hone, hmem⟩ := hmember d hd
      rw [hname, hf.merged g u hu] at hu'
      cases hu'
      exact hone.find_iff.mpr ⟨hmem m hm, rfl⟩
    · obtain ⟨u, hu, hone, hmem⟩ := hmember d hd
      obtain ⟨u', hu', -, hmem'⟩ := hmember e he
      rw [← hname, hu] at hu'
      cases hu'
      exact hone m (hmem m hm) n (hmem' n hn)

end Generic

/-! ## Whole merges -/

/-- Neither the object classes nor the interaction classes of a merge hold a
conflict. -/
structure NoConflict (modules : List FomModule) (fom : MergedFom) : Prop where
  objects : Coherent objectClassKind (objectDefinitions modules) fom.objectClasses
  interactions : Coherent interactionClassKind (interactionDefinitions modules) fom.interactionClasses

/-- **Conflicting definitions are excluded** exactly where the first definition
of no class holds one. -/
theorem merge_noConflict_iff {modules : List FomModule} {fom : MergedFom}
    (h : mergeModules modules = .ok fom) :
    NoConflict modules fom ↔
      FirstsCoherent objectClassKind (objectDefinitions modules) ∧
        FirstsCoherent interactionClassKind (interactionDefinitions modules) := by
  obtain ⟨o, i, hm⟩ := mergeModules_ok h
  have hobjects := coherent_iff objectClassKind_keeps hm.objects hm.objects_filed
  have hinteractions := coherent_iff interactionClassKind_keeps hm.interactions hm.interactions_filed
  constructor
  · intro hno
    exact ⟨hobjects.mp hno.objects, hinteractions.mp hno.interactions⟩
  · rintro ⟨ho, hi⟩
    exact ⟨hobjects.mpr ho, hinteractions.mpr hi⟩

/-- A module with one object class, of attributes `a` of the given datatypes. -/
def attributeModule (datatypes : List String) : FomModule where
  objectClasses := [⟨"O", none,
    datatypes.map fun datatype =>
      ⟨"a", datatype, .receive, "", .noTransfer, .neither, .static, []⟩, none⟩]
  interactionClasses := []

/-- Two modules define one attribute alike. -/
theorem merge_noConflict_iff_alike :
    ∃ fom, mergeModules [attributeModule ["x"], attributeModule ["x"]] = .ok fom ∧
      fom.objectClassHandle "O" = some ⟨1⟩ ∧
      NoConflict [attributeModule ["x"], attributeModule ["x"]] fom := by
  have hmerge : ∃ fom ∈ (mergeModules [attributeModule ["x"], attributeModule ["x"]]).toOption,
      fom.objectClassHandle "O" = some ⟨1⟩ := by decide +kernel
  obtain ⟨fom, hfom, hO⟩ := hmerge
  have hfom := toOption_eq_some.mp hfom
  refine ⟨fom, hfom, hO, (merge_noConflict_iff hfom).mpr ⟨?_, ?_⟩⟩
  · intro name d hd
    have hmem := (mem_of_firstNamed hd).1
    have hdistinct : Distinct objectClassKind (objectClassKind.members d) := by
      simp only [objectDefinitions, attributeModule, List.flatMap_cons, List.flatMap_nil,
        List.append_nil, List.mem_append, List.mem_singleton, or_self] at hmem
      subst hmem
      exact List.nodup_singleton _
    exact ⟨hdistinct.oneMeaning, fun _ => hdistinct⟩
  · intro name d hd
    cases (mem_of_firstNamed hd).1

/-- **A conflict survives**: one definition lists an attribute twice, with
different datatypes, and the merged class has both. -/
theorem conflict_survives :
    ∃ fom, mergeModules [attributeModule ["x", "y"]] = .ok fom ∧
      (fom.objectClassNamed "O").map (fun d => d.attributes.map fun a => (a.name, a.datatype)) =
        some [("a", "x"), ("a", "y")] := by
  have hmerge : ∃ fom ∈ (mergeModules [attributeModule ["x", "y"]]).toOption,
      (fom.objectClassNamed "O").map (fun d => d.attributes.map fun a => (a.name, a.datatype)) =
        some [("a", "x"), ("a", "y")] := by decide +kernel
  obtain ⟨fom, hfom, hboth⟩ := hmerge
  exact ⟨fom, toOption_eq_some.mp hfom, hboth⟩

end Hla4.Omt
