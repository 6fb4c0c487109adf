/-
# `Hla4.Omt.Union` — what a merge unites

`mergeClass` takes one definition at a time and looks at what it has met before.
What it has made of a list of definitions has a description in which no order
occurs:

    UnitedFrom T u     the class `u` made from the definitions `T` of its name:
                       their parent, and the members of all of them
    Rooted T name      the parents of the class, as `T` defines them, lead to a
                       root
    Filed              the classes that are rooted get handles, and no others

The rest of a class (the order and the transportation of an interaction class)
is taken from its first definition.  `Hla4.Omt.Conflicts` says what follows for
definitions that contradict each other, `Hla4.Omt.ModuleOrder` what follows for
the order of the modules.
-/
import Hla4.Omt.Handles
import Mathlib.Algebra.GroupWithZero.Nat

namespace Hla4.Omt

open Lib

section Members

variable {D M H HM : Type} [DecidableEq M] {k : ClassKind D M H HM}

/-- Add attributes (parameters) to a class's list, one after the other. -/
abbrev mergeMembers (k : ClassKind D M H HM) (className : String) (members target : List M) :
    Except FomError (List M) :=
  members.foldlM (fun target m => mergeMember k className m target) target

variable {className : String} {m : M} {members target target' : List M}

theorem mergeMember_ok (h : mergeMember k className m target = .ok target') :
    target' = target ∧ m ∈ target ∨
      target' = target ++ [m] ∧ ∀ t ∈ target, k.memberName t ≠ k.memberName m := by
  unfold mergeMember at h
  split at h
  · next existing hfind =>
      split at h
      · cases h
      · next he =>
          cases h
          exact .inl ⟨rfl, not_not.mp he ▸ List.mem_of_find?_eq_some hfind⟩
  · next hfind =>
      cases h
      exact .inr ⟨rfl, fun t ht => by simpa using List.find?_eq_none.mp hfind t ht⟩

theorem mem_of_mergeMember (h : mergeMember k className m target = .ok target') (x : M) :
    x ∈ target' ↔ x = m ∨ x ∈ target := by
  rcases mergeMember_ok h with ⟨rfl, hm⟩ | ⟨rfl, -⟩
  · exact ⟨.inr, fun hx => hx.elim (fun he => he ▸ hm) id⟩
  · rw [List.mem_append, List.mem_singleton, or_comm]

theorem mem_of_mergeMembers (h : mergeMembers k className members target = .ok target') (x : M) :
    x ∈ target' ↔ x ∈ members ∨ x ∈ target := by
  induction members generalizing target with
  | nil =>
    cases h
    simp
  | cons m members ih =>
    rw [mergeMembers, List.foldlM_cons, bind_eq_ok] at h
    obtain ⟨target₁, hm, hrest⟩ := h
    rw [ih hrest, mem_of_mergeMember hm, List.mem_cons, or_assoc, or_left_comm]

end Members

/-! ## Definitions of one name -/

section Classes

variable {D M H HM R : Type} [DecidableEq M] {k : ClassKind D M H HM} {rest : D → R}
  {definitions : Set D} {cls : D} {st st' : Merging D}

/-- Uniting writes the members and the semantics of a definition and leaves the
`rest` alone. -/
structure ClassKind.Keeps (k : ClassKind D M H HM) (rest : D → R) : Prop where
  lawful : k.Lawful
  members_withMembers : ∀ d members, k.members (k.withMembers d members) = members
  members_withSemantics : ∀ d semantics, k.members (k.withSemantics d semantics) = k.members d
  parent_withMembers : ∀ d members, k.parent (k.withMembers d members) = k.parent d
  parent_withSemantics : ∀ d semantics, k.parent (k.withSemantics d semantics) = k.parent d
  rest_withMembers : ∀ d members, rest (k.withMembers d members) = rest d
  rest_withSemantics : ∀ d semantics, rest (k.withSemantics d semantics) = rest d

/-- The class made from the definitions of its name. -/
structure UnitedFrom (k : ClassKind D M H HM) (definitions : Set D) (u : D) : Prop where
  nonempty : definitions.Nonempty
  parent : ∀ d ∈ definitions, k.parent d = k.parent u
  members : ∀ m, m ∈ k.members u ↔ ∃ d ∈ definitions, m ∈ k.members d

omit [DecidableEq M] in
theorem UnitedFrom.singleton (d : D) : UnitedFrom k {d} d :=
  ⟨⟨d, rfl⟩, by simp, by simp⟩

theorem UnitedFrom.insert {e u : D} {className : String} (h : UnitedFrom k definitions e)
    (hparent : k.parent e = k.parent cls)
    (hmembers : mergeMembers k className (k.members cls) (k.members e) = .ok (k.members u))
    (hu : k.parent u = k.parent e) : UnitedFrom k (insert cls definitions) u := by
  refine ⟨Set.insert_nonempty _ _, fun d hd => ?_, fun m => ?_⟩
  · rw [hu]
    rcases hd with rfl | hd
    · exact hparent.symm
    · exact h.parent d hd
  · rw [mem_of_mergeMembers hmembers, h.members]
    simp [Set.mem_insert_iff, or_and_right, exists_or]

/-- The definitions of a name. -/
def named (k : ClassKind D M H HM) (definitions : Set D) (name : String) : Set D :=
  {d ∈ definitions | k.name d = name}

omit [DecidableEq M] in
theorem named_insert (definitions : Set D) (cls : D) (name : String) :
    named k (insert cls definitions) name =
      if name = k.name cls then insert cls (named k definitions name)
      else named k definitions name := by
  ext d
  split
  · next he =>
      subst he
      constructor
      · rintro ⟨rfl | hd, hname⟩
        · exact .inl rfl
        · exact .inr ⟨hd, hname⟩
      · rintro (rfl | hd)
        · exact ⟨.inl rfl, rfl⟩
        · exact ⟨.inr hd.1, hd.2⟩
  · next hne =>
      refine ⟨?_, fun hd => ⟨.inr hd.1, hd.2⟩⟩
      rintro ⟨rfl | hd, hname⟩
      · exact absurd hname.symm hne
      · exact ⟨hd, hname⟩

/-- What has been merged is, name by name, the union of the definitions met. -/
structure Unites (k : ClassKind D M H HM) (definitions : Set D) (st : Merging D) : Prop where
  absent : ∀ name, st.merged.lookup name = none → named k definitions name = ∅
  united : ∀ name u, st.merged.lookup name = some u → UnitedFrom k (named k definitions name) u

omit [DecidableEq M] in
theorem unites_empty : Unites k ∅ Merging.empty :=
  ⟨fun name _ => by simp [named], fun name u h => by simp [Merging.empty] at h⟩

omit [DecidableEq M] in
theorem Unites.mem_iff (h : Unites k definitions st) (name : String) :
    name ∈ st.merged ↔ ∃ d ∈ definitions, k.name d = name := by
  rw [HashMap.mem_iff_lookup]
  constructor
  · rintro ⟨u, hu⟩
    exact (h.united name u hu).nonempty
  · rintro ⟨d, hd, hname⟩
    cases hl : st.merged.lookup name with
    | some u => exact ⟨u, rfl⟩
    | none => exact absurd (h.absent name hl) (Set.Nonempty.ne_empty ⟨d, hd, hname⟩)

/-- What one definition does: it is new, or united with the one of its name. -/
theorem mergeClass_ok (hk : k.Keeps rest) (h : mergeClass k cls st = .ok st') :
    ∃ u, st'.merged = st.merged.insert (k.name cls) u ∧
      (st.merged.lookup (k.name cls) = none ∧ u = cls ∨
        ∃ e, st.merged.lookup (k.name cls) = some e ∧ k.parent e = k.parent cls ∧
          mergeMembers k (k.name cls) (k.members cls) (k.members e) = .ok (k.members u) ∧
          k.parent u = k.parent e ∧ rest u = rest e) := by
  unfold mergeClass at h
  split at h
  · next e he =>
      dsimp only at h
      split at h
      · cases h
      · next hparent =>
          rw [not_not] at hparent
          rw [bind_eq_ok] at h
          obtain ⟨members, hmembers, h⟩ := h
          cases h
          refine ⟨_, rfl, .inr ⟨e, he, hparent, ?_⟩⟩
          split
          · simp only [hk.members_withSemantics, hk.members_withMembers, hk.parent_withSemantics,
              hk.parent_withMembers, hk.rest_withSemantics, hk.rest_withMembers]
            exact ⟨hmembers, trivial, trivial⟩
          · simp only [hk.members_withMembers, hk.parent_withMembers, hk.rest_withMembers]
            exact ⟨hmembers, trivial, trivial⟩
  · next hnone =>
      cases h
      exact ⟨cls, rfl, .inl ⟨hnone, rfl⟩⟩

theorem Unites.mergeClass (hk : k.Keeps rest) (h : Unites k definitions st)
    (hst : mergeClass k cls st = .ok st') :
    Unites k (insert cls definitions) st' := by
  obtain ⟨u, hu, hcase⟩ := mergeClass_ok hk hst
  constructor
  · intro name hname
    rw [hu, HashMap.lookup_insert_eq] at hname
    split at hname
    · cases hname
    · next hne => rw [named_insert, if_neg hne, h.absent name hname]
  · intro name v hv
    rw [hu, HashMap.lookup_insert_eq] at hv
    split at hv
    · next he =>
        cases hv
        subst he
        rw [named_insert, if_pos rfl]
        rcases hcase with ⟨hnone, rfl⟩ | ⟨e, he, hparent, hmembers, hup, -⟩
        · rw [h.absent _ hnone, insert_empty_eq]
          exact .singleton _
        · exact (h.united _ e he).insert hparent hmembers hup
    · next hne =>
        rw [named_insert, if_neg hne]
        exact h.united name v hv

/-! ### All definitions -/

/-- All definitions of one kind, one after the other. -/
def mergeClasses (k : ClassKind D M H HM) (definitions : List D) (st : Merging D) :
    Except FomError (Merging D) :=
  definitions.foldlM (fun st cls => mergeClass k cls st) st

theorem mergeClasses_cons {definitions : List D} :
    mergeClasses k (cls :: definitions) st = .ok st' ↔
      ∃ st₁, mergeClass k cls st = .ok st₁ ∧ mergeClasses k definitions st₁ = .ok st' := by
  rw [mergeClasses, List.foldlM_cons, bind_eq_ok]
  rfl

theorem mergeClasses_append {first second : List D} :
    mergeClasses k (first ++ second) st = .ok st' ↔
      ∃ st₁, mergeClasses k first st = .ok st₁ ∧ mergeClasses k second st₁ = .ok st' := by
  rw [mergeClasses, List.foldlM_append, bind_eq_ok]
  rfl

theorem Unites.mergeClasses (hk : k.Keeps rest) {met : Set D} {definitions : List D}
    (h : Unites k met st) (hst : Omt.mergeClasses k definitions st = .ok st') :
    Unites k (met ∪ {d | d ∈ definitions}) st' := by
  induction definitions generalizing met st with
  | nil =>
    cases hst
    simpa using h
  | cons cls definitions ih =>
    obtain ⟨st₁, hcls, hrest⟩ := mergeClasses_cons.mp hst
    have hset : met ∪ {d | d ∈ cls :: definitions} = insert cls met ∪ {d | d ∈ definitions} := by
      ext d
      simp only [Set.mem_union, Set.mem_insert_iff, Set.mem_ofPred_eq, List.mem_cons]
      tauto
    rw [hset]
    exact ih (h.mergeClass hk hcls) hrest

theorem unites_of_mergeClasses (hk : k.Keeps rest) {definitions : List D}
    (hst : mergeClasses k definitions .empty = .ok st) : Unites k {d | d ∈ definitions} st := by
  have h := unites_empty.mergeClasses hk hst
  rwa [Set.empty_union] at h

/-! ### Who is reached -/

/-- The parents of the class, as the definitions give them, lead to a root. -/
inductive Rooted (k : ClassKind D M H HM) (definitions : Set D) : String → Prop
  | root {d : D} : d ∈ definitions → k.parent d = none → Rooted k definitions (k.name d)
  | child {d : D} {p : String} : d ∈ definitions → k.parent d = some p →
      Rooted k definitions p → Rooted k definitions (k.name d)

omit [DecidableEq M] in
/-- A merged class has the parent of each of its definitions. -/
theorem Unites.forest_parent (h : Unites k definitions st) {d : D} (hd : d ∈ definitions) :
    k.name d ∈ st.order ∧ (st.forest k).parent (k.name d) = k.parent d := by
  have hmem : k.name d ∈ st.merged := (h.mem_iff _).mpr ⟨d, hd, rfl⟩
  obtain ⟨u, hu⟩ := HashMap.mem_iff_lookup.mp hmem
  refine ⟨(st.mem_order _).mpr hmem, ?_⟩
  simp only [Merging.forest, hu, Option.bind_some]
  exact ((h.united _ u hu).parent d ⟨hd, rfl⟩).symm

omit [DecidableEq M] in
/-- What the walk for handles visits is what the definitions lead to a root. -/
theorem Unites.rooted_iff (h : Unites k definitions st) {name : String} :
    Rooted k definitions name ↔ name ∈ (st.forest k).preorder := by
  rw [Forest.mem_preorder]
  constructor
  · intro hr
    induction hr with
    | root hd hp =>
      obtain ⟨hmem, hpar⟩ := h.forest_parent hd
      exact ⟨[], .root (hpar.trans hp), List.cons_subset.mpr ⟨hmem, List.nil_subset _⟩⟩
    | child hd hp _ ih =>
      obtain ⟨hmem, hpar⟩ := h.forest_parent hd
      obtain ⟨l, hpath, hsub⟩ := ih
      exact ⟨_, .child (hpar.trans hp) hpath, List.cons_subset.mpr ⟨hmem, hsub⟩⟩
  · rintro ⟨l, hpath, hsub⟩
    have hdefined : ∀ {x}, x ∈ st.order → ∃ d ∈ definitions, k.name d = x := fun hx =>
      (h.mem_iff _).mp ((st.mem_order _).mp hx)
    generalize hl : name :: l = path at hpath
    rw [hl] at hsub
    induction hpath generalizing name l with
    | root hp =>
      cases hl
      obtain ⟨d, hd, rfl⟩ := hdefined (hsub List.mem_cons_self)
      exact .root hd ((h.forest_parent hd).2.symm.trans hp)
    | child hp _ ih =>
      cases hl
      obtain ⟨hmem, htail⟩ := List.cons_subset.mp hsub
      obtain ⟨d, hd, rfl⟩ := hdefined hmem
      exact .child hd ((h.forest_parent hd).2.symm.trans hp) (ih _ htail rfl)

end Classes

/-! ## The handles of a union -/

section Handles

variable {D M H HM R : Type} [DecidableEq H] {k : ClassKind D M H HM} {rest : D → R}
  {st st' : Merging D}

/-- The tables of a merge, read by name: the classes whose parents lead to a
root, as they were merged. -/
structure Filed (k : ClassKind D M H HM) (st : Merging D) (classes : HashMap H D)
    (classTable : HashMap String H) : Prop where
  names : ∀ name h, classTable.lookup name = some h ↔
    ∃ d, classes.lookup h = some d ∧ k.name d = name
  merged : ∀ h d, classes.lookup h = some d → st.merged.lookup (k.name d) = some d
  reached : ∀ name, name ∈ classTable ↔ name ∈ (st.forest k).preorder

theorem foldl_assignOne_merged (hnamed : HashMap.KeyedBy k.name st.merged) (l : List String)
    {t : HandleTables D H HM}
    (ht : ∀ h d, t.classes.lookup h = some d → st.merged.lookup (k.name d) = some d) :
    ∀ h d, (l.foldl (assignOne k st) t).classes.lookup h = some d →
      st.merged.lookup (k.name d) = some d := by
  induction l generalizing t with
  | nil => exact ht
  | cons fqn l ih =>
    refine ih ?_
    intro h d hd
    cases hfqn : st.merged.lookup fqn with
    | none =>
      refine ht h d ?_
      simpa [assignOne, hfqn] using hd
    | some =>
      rw [assignOne_classes hfqn, HashMap.lookup_insert_eq] at hd
      split at hd
      · cases hd
        rw [hnamed fqn d hfqn, hfqn]
      · exact ht h d hd

theorem mem_foldl_assignOne {l : List String} (hl : l ⊆ st.order) {t : HandleTables D H HM}
    (name : String) :
    name ∈ (l.foldl (assignOne k st) t).classTable ↔ name ∈ l ∨ name ∈ t.classTable := by
  induction l generalizing t with
  | nil => simp
  | cons fqn l ih =>
    obtain ⟨hfqn, hl⟩ := List.cons_subset.mp hl
    obtain ⟨d, hd⟩ := HashMap.mem_iff_lookup.mp ((st.mem_order fqn).mp hfqn)
    rw [List.foldl_cons, ih hl, assignOne_classTable hd, AList.mem_insert, List.mem_cons,
      or_assoc, or_left_comm]

theorem assignHandles_filed (hk : k.Lawful) (hnamed : HashMap.KeyedBy k.name st.merged)
    (hclass : (assignHandles k st).nextClass < 2 ^ 32)
    (hmember : (assignHandles k st).nextMember < 2 ^ 32) :
    Filed k st (assignHandles k st).classes (assignHandles k st).classTable where
  names := (assignHandles_consistent hk hnamed hclass.le hmember.le).names
  merged := by
    rw [assignHandles_eq]
    exact foldl_assignOne_merged hnamed _ fun h d hd => by simp [HandleTables.empty] at hd
  reached := fun name => by
    rw [assignHandles_eq, mem_foldl_assignOne Forest.preorder_subset]
    simp [HandleTables.empty]

/-- The class of a name: looked up in one table and then in the other. -/
def classNamed (classes : HashMap H D) (classTable : HashMap String H) (name : String) : Option D :=
  (classTable.lookup name).bind classes.lookup

theorem Filed.classNamed_eq {classes : HashMap H D} {classTable : HashMap String H}
    (h : Filed k st classes classTable) {name : String} {d : D} :
    classNamed classes classTable name = some d ↔
      name ∈ (st.forest k).preorder ∧ st.merged.lookup name = some d := by
  rw [← h.reached, HashMap.mem_iff_lookup, classNamed, Option.bind_eq_some_iff]
  constructor
  · rintro ⟨g, hg, hd⟩
    obtain ⟨e, he, rfl⟩ := (h.names name g).mp hg
    cases hd.symm.trans he
    exact ⟨⟨g, hg⟩, h.merged g d hd⟩
  · rintro ⟨⟨g, hg⟩, hd⟩
    obtain ⟨e, he, rfl⟩ := (h.names name g).mp hg
    cases hd.symm.trans (h.merged g e he)
    exact ⟨g, hg, he⟩

/-- The counters of the walk fit in `u32`. -/
def Fits (k : ClassKind D M H HM) (st : Merging D) : Prop :=
  (assignHandles k st).nextClass < 2 ^ 32 ∧ (assignHandles k st).nextMember < 2 ^ 32

end Handles

/-! ## Whole merges -/

/-- Of an object class nothing is left out but its semantics. -/
theorem objectClassKind_keeps : objectClassKind.Keeps fun _ => () where
  lawful := objectClassKind_lawful
  members_withMembers := fun _ _ => rfl
  members_withSemantics := fun _ _ => rfl
  parent_withMembers := fun _ _ => rfl
  parent_withSemantics := fun _ _ => rfl
  rest_withMembers := fun _ _ => rfl
  rest_withSemantics := fun _ _ => rfl

/-- How the interactions of a class are delivered. -/
def InteractionClassDef.delivery (d : InteractionClassDef) : OrderTypeRef × String :=
  (d.order, d.transportation)

theorem interactionClassKind_keeps : interactionClassKind.Keeps InteractionClassDef.delivery where
  lawful := interactionClassKind_lawful
  members_withMembers := fun _ _ => rfl
  members_withSemantics := fun _ _ => rfl
  parent_withMembers := fun _ _ => rfl
  parent_withSemantics := fun _ _ => rfl
  rest_withMembers := fun _ _ => rfl
  rest_withSemantics := fun _ _ => rfl

/-- The object classes of the modules, in order. -/
abbrev objectDefinitions (modules : List FomModule) : List ObjectClassDef :=
  modules.flatMap (·.objectClasses)

/-- The interaction classes of the modules, in order. -/
abbrev interactionDefinitions (modules : List FomModule) : List InteractionClassDef :=
  modules.flatMap (·.interactionClasses)

theorem foldlM_mergeModule {modules : List FomModule}
    {st st' : Merging ObjectClassDef × Merging InteractionClassDef} :
    modules.foldlM mergeModule st = .ok st' ↔
      mergeClasses objectClassKind (objectDefinitions modules) st.1 = .ok st'.1 ∧
      mergeClasses interactionClassKind (interactionDefinitions modules) st.2 = .ok st'.2 := by
  induction modules generalizing st with
  | nil =>
    obtain ⟨o, i⟩ := st
    obtain ⟨o', i'⟩ := st'
    simp [mergeClasses, pure, Except.pure]
  | cons m modules ih =>
    simp only [List.foldlM_cons, bind_eq_ok, ih, objectDefinitions, interactionDefinitions,
      List.flatMap_cons, mergeClasses_append]
    constructor
    · rintro ⟨st₁, hm, ho, hi⟩
      rw [mergeModule, bind_eq_ok] at hm
      obtain ⟨o₁, ho₁, hm⟩ := hm
      rw [bind_eq_ok] at hm
      obtain ⟨i₁, hi₁, hm⟩ := hm
      cases hm
      exact ⟨⟨o₁, ho₁, ho⟩, i₁, hi₁, hi⟩
    · rintro ⟨⟨o₁, ho₁, ho⟩, i₁, hi₁, hi⟩
      refine ⟨(o₁, i₁), ?_, ho, hi⟩
      rw [mergeModule, bind_eq_ok]
      exact ⟨o₁, ho₁, bind_eq_ok.mpr ⟨i₁, hi₁, rfl⟩⟩

/-- The unions a merged FOM was numbered from. -/
structure MergedFrom (modules : List FomModule) (fom : MergedFom) (o : Merging ObjectClassDef)
    (i : Merging InteractionClassDef) : Prop where
  objects : mergeClasses objectClassKind (objectDefinitions modules) .empty = .ok o
  interactions : mergeClasses interactionClassKind (interactionDefinitions modules) .empty = .ok i
  objects_fit : Fits objectClassKind o
  interactions_fit : Fits interactionClassKind i
  objects_filed : Filed objectClassKind o fom.objectClasses fom.objectClassTable
  interactions_filed : Filed interactionClassKind i fom.interactionClasses fom.interactionClassTable

theorem mergeModules_ok {modules : List FomModule} {fom : MergedFom}
    (h : mergeModules modules = .ok fom) : ∃ o i, MergedFrom modules fom o i := by
  rw [mergeModules, bind_eq_ok] at h
  obtain ⟨⟨o, i⟩, hst, h⟩ := h
  have hfiled : FiledByName (o, i) := Yields.foldlM (fun _ _ => mergeModule_filed)
    ⟨HashMap.KeyedBy.empty, HashMap.KeyedBy.empty⟩ _ hst
  obtain ⟨ho, hi⟩ := foldlM_mergeModule.mp hst
  dsimp only at h
  split at h
  · next hoc =>
      split at h
      · next hic =>
          split at h
          · next hm =>
              cases h
              exact ⟨o, i, ho, hi, ⟨hoc, hm.1⟩, ⟨hic, hm.2⟩,
                assignHandles_filed objectClassKind_lawful hfiled.1 hoc hm.1,
                assignHandles_filed interactionClassKind_lawful hfiled.2 hic hm.2⟩
          · cases h
      · cases h
  · cases h

/-- The merge succeeds exactly if both lists of definitions are accepted and the
counters fit. -/
theorem mergeModules_isOk {modules : List FomModule} :
    (∃ fom, mergeModules modules = .ok fom) ↔
      (∃ o, mergeClasses objectClassKind (objectDefinitions modules) .empty = .ok o ∧
        Fits objectClassKind o) ∧
      ∃ i, mergeClasses interactionClassKind (interactionDefinitions modules) .empty = .ok i ∧
        Fits interactionClassKind i := by
  constructor
  · rintro ⟨fom, h⟩
    obtain ⟨o, i, hm⟩ := mergeModules_ok h
    exact ⟨⟨o, hm.objects, hm.objects_fit⟩, i, hm.interactions, hm.interactions_fit⟩
  · rintro ⟨⟨o, ho, hoc, hom⟩, i, hi, hic, him⟩
    have hst : modules.foldlM mergeModule (Merging.empty, Merging.empty) = .ok (o, i) :=
      foldlM_mergeModule.mpr ⟨ho, hi⟩
    simp only [mergeModules, hst, bind, Except.bind, dif_pos hoc, dif_pos hic,
      if_pos (And.intro hom him)]
    exact ⟨_, rfl⟩

namespace MergedFom

/-- The definition a name leads to. -/
def objectClassNamed (fom : MergedFom) : String → Option ObjectClassDef :=
  classNamed fom.objectClasses fom.objectClassTable

/-- The definition a name leads to. -/
def interactionClassNamed (fom : MergedFom) : String → Option InteractionClassDef :=
  classNamed fom.interactionClasses fom.interactionClassTable

end MergedFom

end Hla4.Omt
