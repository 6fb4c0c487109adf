/-
# `Hla4.Omt.Handles` — the handle tables of a merged FOM

The walk of `Hla4.Omt.Merge` fills three tables from two counters.  Once it is
over the tables agree with each other:

    names      the table of names and the table of classes undo each other
    handles    the class handles in use are 1 .. n, for n classes
    distinct   no two (class, member) pairs have the same member handle
    listed     a pair has a member handle exactly if the class lists the member

A class may list a member twice (the merge unites lists, but takes the first one
as it is).  The member is then numbered twice and keeps the second number.

`Tabled` is what holds while the tables are filled: one class more keeps it
(`Tabled.assignOne`), so a list of classes does.  That a class is filed under its
own name comes from the merge (`mergeClass_keyed`).
-/
import Hla4.Lib.Checked
import Hla4.Lib.Numbering
import Hla4.Omt.Merge

namespace Hla4.Omt

open Lib

section Generic

variable {D M H HM : Type} [DecidableEq H] (k : ClassKind D M H HM)

/-- Uniting definitions does not rename them, and member handles are as many as
their numbers. -/
structure ClassKind.Lawful : Prop where
  name_withMembers : ∀ d members, k.name (k.withMembers d members) = k.name d
  name_withSemantics : ∀ d semantics, k.name (k.withSemantics d semantics) = k.name d
  member_injective : Function.Injective k.newMemberHandle

/-- The tables of one kind of class agree with each other. -/
structure Consistent (classes : HashMap H D) (classTable : HashMap String H)
    (memberTable : HashMap (H × String) HM) : Prop where
  names : ∀ name h, classTable.lookup name = some h ↔
    ∃ d, classes.lookup h = some d ∧ k.name d = name
  handles : ∀ raw, k.newHandle raw ∈ classes ↔ 1 ≤ raw.toNat ∧ raw.toNat ≤ classes.keys.length
  distinct : ∀ p q m, memberTable.lookup p = some m → memberTable.lookup q = some m → p = q
  listed : ∀ h a, (h, a) ∈ memberTable ↔
    ∃ d, classes.lookup h = some d ∧ ∃ m ∈ k.members d, k.memberName m = a

/-- The same while the tables are filled, with the counters. -/
structure Tabled (t : HandleTables D H HM) : Prop where
  names : Inverts k.name t.classTable t.classes
  handles : ∀ raw, k.newHandle raw ∈ t.classes ↔ 1 ≤ raw.toNat ∧ raw.toNat < t.nextClass
  count : t.nextClass = t.classes.keys.length + 1
  members : Numbered (fun n => k.newMemberHandle (UInt32.ofNat n)) t.nextMember t.memberTable
  nextMember : 1 ≤ t.nextMember
  listed : ∀ h a, (h, a) ∈ t.memberTable ↔
    ∃ d, t.classes.lookup h = some d ∧ ∃ m ∈ k.members d, k.memberName m = a

variable {k} {st : Merging D} {t : HandleTables D H HM} {fqn : String} {d : D}

theorem Tabled.consistent (h : Tabled k t) : Consistent k t.classes t.classTable t.memberTable where
  names := h.names
  handles := fun raw => by rw [h.handles, h.count, Nat.lt_succ_iff]
  distinct := h.members.distinct
  listed := h.listed

/-- Looking for a handle among the members of a class finds the member that has
it. -/
theorem Consistent.find_member [DecidableEq HM] {classes : HashMap H D}
    {classTable : HashMap String H} {memberTable : HashMap (H × String) HM}
    (hc : Consistent k classes classTable memberTable) {h : H} {a : String} {v : HM} :
    (∃ d, classes.lookup h = some d ∧ ∃ m, ((k.members d).find? fun m =>
        decide (memberTable.lookup (h, k.memberName m) = some v)) = some m ∧ k.memberName m = a) ↔
      memberTable.lookup (h, a) = some v := by
  constructor
  · rintro ⟨d, _, m, hm, rfl⟩
    exact of_decide_eq_true (List.find?_some hm :)
  · intro hv
    obtain ⟨d, hd, m, hm, rfl⟩ := (hc.listed h a).mp (HashMap.mem_of_lookup hv)
    -- whichever member is met first, no other pair has the handle
    obtain ⟨m', hfind, _, hv'⟩ := exists_find?
      (p := fun m => decide (memberTable.lookup (h, k.memberName m) = some v)) hm (decide_eq_true hv)
    exact ⟨d, hd, m', hfind, (congrArg Prod.snd (hc.distinct _ _ v hv (of_decide_eq_true hv'))).symm⟩

theorem tabled_empty : Tabled k (HandleTables.empty : HandleTables D H HM) where
  names := .empty
  handles := fun raw => by
    simp only [HandleTables.empty, AList.notMem_empty, false_iff]
    omega
  count := rfl
  members := .empty
  nextMember := le_rfl
  listed := fun h a => by simp [HandleTables.empty]

/-! ## One class -/

omit [DecidableEq H] in
theorem newHandle_inj {raw raw' : UInt32} : k.newHandle raw = k.newHandle raw' ↔ raw = raw' := by
  refine ⟨fun h => ?_, congrArg _⟩
  rw [← k.raw_new raw, h, k.raw_new]

theorem ofNat_injOn {n : Nat} (hn : n ≤ 2 ^ 32) : Set.InjOn UInt32.ofNat (Set.Iio n) := by
  intro i hi j hj he
  rw [← UInt32.toNat_ofNat_of_lt' (lt_of_lt_of_le hi hn), he,
    UInt32.toNat_ofNat_of_lt' (lt_of_lt_of_le hj hn)]

theorem assignOne_memberTable (hd : st.merged.lookup fqn = some d) :
    ((assignOne k st t fqn).memberTable, (assignOne k st t fqn).nextMember) =
      (k.members d).foldl (enter (fun n => k.newMemberHandle (UInt32.ofNat n))
        fun m => (k.newHandle (UInt32.ofNat t.nextClass), k.memberName m))
        (t.memberTable, t.nextMember) := by
  simp only [assignOne, hd]
  rfl

theorem assignOne_nextMember (hd : st.merged.lookup fqn = some d) :
    (assignOne k st t fqn).nextMember = t.nextMember + (k.members d).length := by
  rw [← foldl_enter_snd (k.members d) (t.memberTable, t.nextMember), ← assignOne_memberTable hd]

theorem mem_assignOne_memberTable (hd : st.merged.lookup fqn = some d) (h : H) (a : String) :
    (h, a) ∈ (assignOne k st t fqn).memberTable ↔ (h, a) ∈ t.memberTable ∨
      (h = k.newHandle (UInt32.ofNat t.nextClass) ∧ ∃ m ∈ k.members d, k.memberName m = a) := by
  rw [show (assignOne k st t fqn).memberTable = _ from congrArg Prod.fst (assignOne_memberTable hd),
    mem_foldl_enter, List.mem_map]
  refine or_congr_right ?_
  constructor
  · rintro ⟨m, hm, he⟩
    cases he
    exact ⟨rfl, m, hm, rfl⟩
  · rintro ⟨rfl, m, hm, rfl⟩
    exact ⟨m, hm, rfl⟩

/-- **One class more.**  Its handle and the handles of its members are new. -/
theorem Tabled.assignOne (h : Tabled k t) (hk : k.Lawful) (hd : st.merged.lookup fqn = some d)
    (hname : k.name d = fqn) (hnew : fqn ∉ t.classTable) (hclass : t.nextClass < 2 ^ 32)
    (hmember : (assignOne k st t fqn).nextMember ≤ 2 ^ 32) : Tabled k (assignOne k st t fqn) := by
  have hraw : (UInt32.ofNat t.nextClass).toNat = t.nextClass := UInt32.toNat_ofNat_of_lt' hclass
  have hfresh : k.newHandle (UInt32.ofNat t.nextClass) ∉ t.classes := by
    rw [h.handles, hraw]
    omega
  rw [assignOne_nextMember hd] at hmember
  refine ⟨?_, ?_, ?_, ?_, ?_, ?_⟩
  · rw [assignOne_classTable hd, assignOne_classes hd]
    subst hname
    exact h.names.insert hnew hfresh
  · intro raw
    rw [assignOne_classes hd, assignOne_nextClass hd, AList.mem_insert, newHandle_inj, h.handles,
      ← UInt32.toNat_inj, hraw]
    have := h.count
    omega
  · rw [assignOne_classes hd, assignOne_nextClass hd, AList.keys_insert, List.length_cons,
      List.erase_of_not_mem hfresh, h.count]
  · have hinj : Set.InjOn (fun n => k.newMemberHandle (UInt32.ofNat n))
        (Set.Iio (t.nextMember + (k.members d).length)) :=
      (hk.member_injective.injOn).comp (ofNat_injOn hmember) (Set.mapsTo_univ _ _)
    rw [assignOne_nextMember hd,
      show (Omt.assignOne k st t fqn).memberTable = _ from congrArg Prod.fst (assignOne_memberTable hd)]
    exact Numbered.foldl_enter (s := (t.memberTable, t.nextMember)) h.members h.nextMember hinj
  · rw [assignOne_nextMember hd]
    have := h.nextMember
    omega
  · intro g a
    rw [mem_assignOne_memberTable hd, assignOne_classes hd, HashMap.lookup_insert_eq, h.listed]
    by_cases hg : g = k.newHandle (UInt32.ofNat t.nextClass)
    · -- the class had no members before it had a handle
      have hnone : t.classes.lookup g = none := AList.lookup_eq_none.mpr (hg ▸ hfresh)
      subst hg
      simp [hnone]
    · simp [hg]

/-! ## A list of classes -/

theorem assignOne_nextMember_le : t.nextMember ≤ (assignOne k st t fqn).nextMember := by
  cases hd : st.merged.lookup fqn with
  | none => simp [assignOne, hd]
  | some =>
    rw [assignOne_nextMember hd]
    omega

theorem foldl_assignOne_nextMember_le (l : List String) :
    t.nextMember ≤ (l.foldl (assignOne k st) t).nextMember := by
  induction l generalizing t with
  | nil => exact le_rfl
  | cons fqn l ih => exact assignOne_nextMember_le.trans ih

theorem Tabled.foldl {l : List String} (h : Tabled k t) (hk : k.Lawful)
    (hnamed : HashMap.KeyedBy k.name st.merged) (hl : l ⊆ st.order) (hnd : l.Nodup)
    (hnew : ∀ x ∈ l, x ∉ t.classTable) (hclass : t.nextClass + l.length ≤ 2 ^ 32)
    (hmember : (l.foldl (Omt.assignOne k st) t).nextMember ≤ 2 ^ 32) :
    Tabled k (l.foldl (Omt.assignOne k st) t) := by
  induction l generalizing t with
  | nil => exact h
  | cons fqn l ih =>
    obtain ⟨hfqn, hl⟩ := List.cons_subset.mp hl
    obtain ⟨hnot, hnd⟩ := List.nodup_cons.mp hnd
    obtain ⟨d, hd⟩ := HashMap.mem_iff_lookup.mp ((st.mem_order fqn).mp hfqn)
    rw [List.length_cons] at hclass
    have hstep := h.assignOne hk hd (hnamed fqn d hd) (hnew fqn List.mem_cons_self) (by omega)
      ((foldl_assignOne_nextMember_le l).trans hmember)
    refine ih hstep hl hnd ?_ (by rw [assignOne_nextClass hd]; omega) hmember
    intro x hx
    rw [assignOne_classTable hd, AList.mem_insert, not_or]
    exact ⟨fun he => hnot (he ▸ hx), hnew x (List.mem_cons_of_mem _ hx)⟩

/-- **The tables of a merge agree**, when the counters fit. -/
theorem assignHandles_consistent (hk : k.Lawful) (hnamed : HashMap.KeyedBy k.name st.merged)
    (hclass : (assignHandles k st).nextClass ≤ 2 ^ 32)
    (hmember : (assignHandles k st).nextMember ≤ 2 ^ 32) :
    Consistent k (assignHandles k st).classes (assignHandles k st).classTable
      (assignHandles k st).memberTable := by
  refine Tabled.consistent ?_
  rw [assignHandles_eq] at hclass hmember ⊢
  have hsub : (st.forest k).preorder ⊆ st.order := Forest.preorder_subset
  rw [foldl_assignOne_nextClass hsub] at hclass
  exact tabled_empty.foldl hk hnamed hsub Forest.preorder_nodup
    (fun x _ => AList.notMem_empty x) hclass hmember

/-! ## Uniting definitions -/

omit [DecidableEq H] in
theorem mergeClass_keyed [DecidableEq M] (hk : k.Lawful) {cls : D} {st : Merging D}
    (h : HashMap.KeyedBy k.name st.merged) :
    Yields (mergeClass k cls st) fun st' => HashMap.KeyedBy k.name st'.merged := by
  unfold mergeClass
  split
  · next existing hold =>
      dsimp only
      split
      · exact .bind fun _ hthrow => by cases hthrow
      · refine .bind fun members _ => .pure ?_
        refine h.insert ?_
        split <;> simp [hk.name_withMembers, hk.name_withSemantics, h _ _ hold]
  · exact .pure (h.insert rfl)

end Generic

theorem objectClassKind_lawful : objectClassKind.Lawful where
  name_withMembers := fun _ _ => rfl
  name_withSemantics := fun _ _ => rfl
  member_injective := fun _ _ h => congrArg AttributeHandle.raw h

theorem interactionClassKind_lawful : interactionClassKind.Lawful where
  name_withMembers := fun _ _ => rfl
  name_withSemantics := fun _ _ => rfl
  member_injective := fun _ _ h => congrArg ParameterHandle.raw h

/-! ## Whole merges -/

/-- Every definition is filed under its own name. -/
def FiledByName (st : Merging ObjectClassDef × Merging InteractionClassDef) : Prop :=
  HashMap.KeyedBy objectClassKind.name st.1.merged ∧
    HashMap.KeyedBy interactionClassKind.name st.2.merged

theorem mergeModule_filed {st : Merging ObjectClassDef × Merging InteractionClassDef}
    {m : FomModule} (h : FiledByName st) : Yields (mergeModule st m) FiledByName := by
  refine .bind fun objects ho => .bind fun interactions hi => .pure ⟨?_, ?_⟩
  · exact Yields.foldlM (P := fun s => HashMap.KeyedBy objectClassKind.name s.merged)
      (fun _ _ hs => mergeClass_keyed objectClassKind_lawful hs) h.1 objects ho
  · exact Yields.foldlM (P := fun s => HashMap.KeyedBy interactionClassKind.name s.merged)
      (fun _ _ hs => mergeClass_keyed interactionClassKind_lawful hs) h.2 interactions hi

namespace MergedFom

/-- The tables of the object classes agree, and so do those of the interaction
classes. -/
structure Agrees (fom : MergedFom) : Prop where
  objects : Consistent objectClassKind fom.objectClasses fom.objectClassTable fom.attributeTable
  interactions : Consistent interactionClassKind fom.interactionClasses fom.interactionClassTable
    fom.parameterTable

end MergedFom

/-- **A merged FOM agrees with itself.** -/
theorem mergeModules_agrees (modules : List FomModule) :
    Yields (mergeModules modules) MergedFom.Agrees := by
  refine .bind fun st hst => ?_
  have hfiled : FiledByName st := Yields.foldlM (fun _ _ => mergeModule_filed)
    ⟨HashMap.KeyedBy.empty, HashMap.KeyedBy.empty⟩ st hst
  dsimp only
  split
  · next ho =>
      split
      · next hi =>
          split
          · next hm =>
              exact .pure ⟨assignHandles_consistent objectClassKind_lawful hfiled.1 ho.le hm.1.le,
                assignHandles_consistent interactionClassKind_lawful hfiled.2 hi.le hm.2.le⟩
          · exact .error
      · exact .error
  · exact .error

end Hla4.Omt
