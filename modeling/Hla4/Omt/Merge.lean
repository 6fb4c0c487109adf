/-
# `Hla4.Omt.Merge` — merging FOM modules

Classes of the same name are united: their attribute (parameter) lists by name,
with a conflict when the same name is defined differently or the parents
disagree.  Then handles are assigned by a depth-first walk from the classes
without a parent.

Object and interaction classes go through the same steps, written twice in the
source.  Here the steps are written once over a `ClassKind`, and the source's
functions are its instances.

    mergeClass               merge_object_class, merge_interaction_class
    mergeMember              merge_attribute, merge_parameter
    assignClassHandles       assign_object_class_handles, assign_interaction_class_handles

The recursion over children is bounded by the number of classes, which is
enough on every input (`assignFromRoots_returns` in `Hla4.Omt.Walks`).  `mergeModules`
returns a `MergedFom`: `parents_assigned_first` is what its invariant asks for.

Handles are `u32` counters.  A merge whose classes or members do not fit is
reported as `counterOverflow` (the checked build panics there).
-/
import Hla4.Omt.Fom

namespace Hla4.Omt

open Lib

inductive FomError
  | objectParentDisagreement (cls : String) (existing new : Option String)
  | attributeDisagreement (cls attr : String)
  | interactionParentDisagreement (cls : String)
  | parameterDisagreement (cls parameter : String)
  | counterOverflow
deriving DecidableEq

/-- What the merge reads and writes of a class definition `D` with members
`M`, and the handles `H`, `HM` it gives them. -/
structure ClassKind (D M H HM : Type) where
  name : D → String
  parent : D → Option String
  members : D → List M
  withMembers : D → List M → D
  semantics : D → Option String
  withSemantics : D → Option String → D
  memberName : M → String
  /-- the existing definition, then the new one -/
  parentDisagreement : D → D → FomError
  memberDisagreement : String → String → FomError
  newHandle : UInt32 → H
  rawHandle : H → UInt32
  newMemberHandle : UInt32 → HM
  raw_new : ∀ raw, rawHandle (newHandle raw) = raw

def objectClassKind : ClassKind ObjectClassDef AttributeDef ObjectClassHandle AttributeHandle where
  name := (·.name)
  parent := (·.parent)
  members := (·.attributes)
  withMembers := fun d attributes => { d with attributes }
  semantics := (·.semantics)
  withSemantics := fun d semantics => { d with semantics }
  memberName := (·.name)
  parentDisagreement := fun existing cls =>
    .objectParentDisagreement cls.name existing.parent cls.parent
  memberDisagreement := .attributeDisagreement
  newHandle := ObjectClassHandle.mk
  rawHandle := (·.raw)
  newMemberHandle := AttributeHandle.mk
  raw_new := fun _ => rfl

def interactionClassKind :
    ClassKind InteractionClassDef ParameterDef InteractionClassHandle ParameterHandle where
  name := (·.name)
  parent := (·.parent)
  members := (·.parameters)
  withMembers := fun d parameters => { d with parameters }
  semantics := (·.semantics)
  withSemantics := fun d semantics => { d with semantics }
  memberName := (·.name)
  parentDisagreement := fun _ ic => .interactionParentDisagreement ic.name
  memberDisagreement := .parameterDisagreement
  newHandle := InteractionClassHandle.mk
  rawHandle := (·.raw)
  newMemberHandle := ParameterHandle.mk
  raw_new := fun _ => rfl

/-! ## Uniting definitions -/

/-- The classes merged so far, and the order their names were first met in. -/
structure Merging (D : Type) where
  merged : HashMap String D
  order : List String
  nodup : order.Nodup
  mem_order : ∀ name, name ∈ order ↔ name ∈ merged

/-- Nothing merged yet. -/
def Merging.empty {D : Type} : Merging D :=
  ⟨∅, [], List.nodup_nil, fun name => by simp⟩

section Generic

variable {D M H HM : Type} [DecidableEq M] [DecidableEq H] (k : ClassKind D M H HM)

/-- Add one attribute (parameter) to a class's list. -/
def mergeMember (className : String) (m : M) (target : List M) : Except FomError (List M) :=
  match target.find? fun existing => k.memberName existing = k.memberName m with
  | some existing =>
    if existing ≠ m then .error (k.memberDisagreement className (k.memberName m))
    else .ok target
  | none => .ok (target ++ [m])

/-- Unite a definition with the one already merged under its name, if any. -/
def mergeClass (cls : D) (st : Merging D) : Except FomError (Merging D) :=
  match h : st.merged.lookup (k.name cls) with
  | some existing => do
      if k.parent existing ≠ k.parent cls then
        throw (k.parentDisagreement existing cls)
      let members ← (k.members cls).foldlM (fun target m => mergeMember k (k.name cls) m target)
        (k.members existing)
      let united := k.withMembers existing members
      let united :=
        if (k.semantics existing).isNone then k.withSemantics united (k.semantics cls) else united
      return {
        merged := st.merged.insert (k.name cls) united
        order := st.order
        nodup := st.nodup
        mem_order := fun name => by
          have hmem := HashMap.mem_of_lookup h
          rw [AList.mem_insert, st.mem_order]
          exact ⟨.inr, fun hn => hn.elim (fun he => he ▸ hmem) id⟩ }
  | none =>
    return {
      merged := st.merged.insert (k.name cls) cls
      order := st.order ++ [k.name cls]
      nodup := by
        have hnew : k.name cls ∉ st.order := fun hn => by
          obtain ⟨v, hv⟩ := HashMap.mem_iff_lookup.mp ((st.mem_order _).mp hn)
          rw [h] at hv
          cases hv
        exact List.Nodup.append st.nodup (List.nodup_singleton _) (by simpa using hnew)
      mem_order := fun name => by
        rw [AList.mem_insert, List.mem_append, List.mem_singleton, st.mem_order]
        exact or_comm }

/-! ## Assigning handles -/

/-- The tables being filled, and the next free handle numbers. -/
structure HandleTables (D H HM : Type) where
  nextClass : Nat
  nextMember : Nat
  classes : HashMap H D
  classTable : HashMap String H
  memberTable : HashMap (H × String) HM

/-- Empty tables; handles start at 1. -/
def HandleTables.empty : HandleTables D H HM := ⟨1, 1, ∅, ∅, ∅⟩

/-- The merged classes with their parents. -/
def Merging.forest (st : Merging D) : Forest String where
  nodes := st.order
  nodup := st.nodup
  parent := fun fqn => (st.merged.lookup fqn).bind k.parent

/-- Give handles to one class and its members. -/
def assignOne (st : Merging D) (t : HandleTables D H HM) (fqn : String) : HandleTables D H HM :=
  match st.merged.lookup fqn with
  | none => t
  | some d =>
    let handle := k.newHandle (UInt32.ofNat t.nextClass)
    let (memberTable, nextMember) := (k.members d).foldl
      (fun (table, next) m =>
        (table.insert (handle, k.memberName m) (k.newMemberHandle (UInt32.ofNat next)), next + 1))
      (t.memberTable, t.nextMember)
    { nextClass := t.nextClass + 1
      nextMember
      classes := t.classes.insert handle d
      classTable := t.classTable.insert fqn handle
      memberTable }

/-- Give handles to a class, then to its children in order. -/
def assignClassHandles (st : Merging D) :
    Nat → HandleTables D H HM → String → HandleTables D H HM
  | 0, t, _ => t
  | fuel + 1, t, fqn =>
    ((st.forest k).children fqn).foldl (assignClassHandles st fuel) (assignOne k st t fqn)

/-- Give handles to every class reached from a root. -/
def assignHandles (st : Merging D) : HandleTables D H HM :=
  (st.forest k).roots.foldl (assignClassHandles k st st.order.length) HandleTables.empty

omit [DecidableEq M] in
/-- The recursion assigns in depth-first order. -/
theorem assignClassHandles_eq (st : Merging D) (fuel : Nat) (t : HandleTables D H HM)
    (fqn : String) :
    assignClassHandles k st fuel t fqn = ((st.forest k).visit fuel fqn).foldl (assignOne k st) t := by
  induction fuel generalizing t fqn with
  | zero => rfl
  | succ fuel ih =>
    have hchild : assignClassHandles k st fuel =
        fun t c => ((st.forest k).visit fuel c).foldl (assignOne k st) t :=
      funext fun t => funext fun c => ih t c
    rw [assignClassHandles, Forest.visit, List.foldl_cons, List.foldl_flatMap, hchild]

/-! ## Parents are assigned before their children -/

/-- What the tables hold once the classes in `seen` have handles. -/
structure Assigned (seen : Set String) (t : HandleTables D H HM) : Prop where
  table : ∀ n, n ∈ seen ↔ n ∈ t.classTable
  defined : ∀ n h, t.classTable.lookup n = some h → h ∈ t.classes
  bounded : ∀ h, h ∈ t.classes → (k.rawHandle h).toNat < t.nextClass
  parents : ∀ h d p, t.classes.lookup h = some d → k.parent d = some p →
    ∃ q, t.classTable.lookup p = some q ∧ q ∈ t.classes ∧ k.rawHandle q < k.rawHandle h

variable {k} {st : Merging D} {t : HandleTables D H HM} {fqn : String} {d : D}

omit [DecidableEq M] in
theorem assignOne_nextClass (hd : st.merged.lookup fqn = some d) :
    (assignOne k st t fqn).nextClass = t.nextClass + 1 := by
  simp [assignOne, hd]

omit [DecidableEq M] in
theorem assignOne_classes (hd : st.merged.lookup fqn = some d) :
    (assignOne k st t fqn).classes =
      t.classes.insert (k.newHandle (UInt32.ofNat t.nextClass)) d := by
  simp [assignOne, hd]

omit [DecidableEq M] in
theorem assignOne_classTable (hd : st.merged.lookup fqn = some d) :
    (assignOne k st t fqn).classTable =
      t.classTable.insert fqn (k.newHandle (UInt32.ofNat t.nextClass)) := by
  simp [assignOne, hd]

omit [DecidableEq M] in
/-- One class more: its handle is above all handles in use, so its parent's is
below it, and no class already there has the new one as its parent. -/
theorem Assigned.assignOne {seen : Set String} (hA : Assigned k seen t)
    (hd : st.merged.lookup fqn = some d) (hnew : fqn ∉ seen)
    (hpar : ∀ p, k.parent d = some p → p ∈ seen) (hfit : t.nextClass < 2 ^ 32) :
    Assigned k (insert fqn seen) (assignOne k st t fqn) := by
  have hraw : (k.rawHandle (k.newHandle (UInt32.ofNat t.nextClass))).toNat = t.nextClass := by
    rw [k.raw_new]
    exact UInt32.toNat_ofNat_of_lt hfit
  have hkept : ∀ p, p ∈ seen →
      ∃ q, (Omt.assignOne k st t fqn).classTable.lookup p = some q ∧
        q ∈ (Omt.assignOne k st t fqn).classes ∧ t.classTable.lookup p = some q ∧
        (k.rawHandle q).toNat < t.nextClass := by
    intro p hp
    obtain ⟨q, hq⟩ := HashMap.mem_iff_lookup.mp ((hA.table p).mp hp)
    have hdef := hA.defined p q hq
    refine ⟨q, ?_, ?_, hq, hA.bounded q hdef⟩
    · have hne : p ≠ fqn := fun he => hnew (he ▸ hp)
      rw [assignOne_classTable hd, HashMap.lookup_insert_eq, if_neg hne, hq]
    · rw [assignOne_classes hd, AList.mem_insert]
      exact .inr hdef
  refine ⟨?_, ?_, ?_, ?_⟩
  · intro n
    rw [assignOne_classTable hd, AList.mem_insert, Set.mem_insert_iff, hA.table]
  · intro n h hn
    rw [assignOne_classTable hd, HashMap.lookup_insert_eq] at hn
    rw [assignOne_classes hd, AList.mem_insert]
    split at hn
    · exact .inl (Option.some.inj hn).symm
    · exact .inr (hA.defined n h hn)
  · intro h hh
    rw [assignOne_classes hd, AList.mem_insert] at hh
    rw [assignOne_nextClass hd]
    rcases hh with rfl | hh
    · omega
    · have := hA.bounded h hh
      omega
  · intro h e p he hp
    rw [assignOne_classes hd, HashMap.lookup_insert_eq] at he
    split at he
    · next hh =>
        cases he
        obtain ⟨q, hq, hdef, _, hlt⟩ := hkept p (hpar p hp)
        refine ⟨q, hq, hdef, UInt32.lt_iff_toNat_lt.mpr ?_⟩
        rw [hh, hraw]
        exact hlt
    · obtain ⟨q, hq, _, hlt⟩ := hA.parents h e p he hp
      have hseen : p ∈ seen := (hA.table p).mpr (HashMap.mem_of_lookup hq)
      obtain ⟨q', hq', hdef, hold, _⟩ := hkept p hseen
      rw [hold] at hq
      cases hq
      exact ⟨_, hq', hdef, hlt⟩

omit [DecidableEq M] in
theorem foldl_assignOne_nextClass {l : List String} (hl : l ⊆ st.order) :
    (l.foldl (assignOne k st) t).nextClass = t.nextClass + l.length := by
  induction l generalizing t with
  | nil => rfl
  | cons fqn l ih =>
    obtain ⟨hfqn, hl⟩ := List.cons_subset.mp hl
    obtain ⟨d, hd⟩ := HashMap.mem_iff_lookup.mp ((st.mem_order fqn).mp hfqn)
    rw [List.foldl_cons, ih hl, assignOne_nextClass hd, List.length_cons]
    omega

omit [DecidableEq M] in
theorem Assigned.foldl {seen : Set String} {l : List String} (hA : Assigned k seen t)
    (hl : l ⊆ st.order) (hnd : l.Nodup) (hdisj : ∀ x ∈ l, x ∉ seen)
    (hpf : (st.forest k).ParentsFirst seen l) (hfit : t.nextClass + l.length ≤ 2 ^ 32) :
    ∃ seen', Assigned k seen' (l.foldl (Omt.assignOne k st) t) := by
  induction l generalizing seen t with
  | nil => exact ⟨seen, hA⟩
  | cons fqn l ih =>
    obtain ⟨hfqn, hl⟩ := List.cons_subset.mp hl
    obtain ⟨hnot, hnd⟩ := List.nodup_cons.mp hnd
    obtain ⟨d, hd⟩ := HashMap.mem_iff_lookup.mp ((st.mem_order fqn).mp hfqn)
    have hpar : ∀ p, k.parent d = some p → p ∈ seen := fun p hp => by
      refine hpf.1 p ?_
      simp [Merging.forest, hd, hp]
    rw [List.length_cons] at hfit
    have hstep := hA.assignOne hd (hdisj fqn (List.mem_cons_self ..)) hpar (by omega)
    refine ih hstep hl hnd ?_ hpf.2 (by rw [assignOne_nextClass hd]; omega)
    intro x hx hmem
    rcases Set.mem_insert_iff.mp hmem with rfl | hmem
    · exact hnot hx
    · exact hdisj x (List.mem_cons_of_mem _ hx) hmem

omit [DecidableEq M] in
theorem assignHandles_eq : assignHandles k st =
    (st.forest k).preorder.foldl (assignOne k st) HandleTables.empty := by
  have hroot : assignClassHandles k st st.order.length =
      fun t r => ((st.forest k).visit (st.forest k).nodes.length r).foldl (assignOne k st) t :=
    funext fun t => funext fun r => assignClassHandles_eq k st st.order.length t r
  rw [assignHandles, Forest.preorder, List.foldl_flatMap, hroot]

omit [DecidableEq M] in
/-- **Parents first.**  When the class counter fits, every class with a parent
has it in the table, under a smaller handle. -/
theorem parents_assigned_first (hfit : (assignHandles k st).nextClass < 2 ^ 32) {h : H} {p : String}
    (hd : (assignHandles k st).classes.lookup h = some d) (hp : k.parent d = some p) :
    ∃ q, (assignHandles k st).classTable.lookup p = some q ∧
      q ∈ (assignHandles k st).classes ∧ k.rawHandle q < k.rawHandle h := by
  rw [assignHandles_eq] at hd hfit ⊢
  have hsub : (st.forest k).preorder ⊆ st.order := Forest.preorder_subset
  rw [foldl_assignOne_nextClass hsub] at hfit
  have hempty : Assigned k ∅ (HandleTables.empty : HandleTables D H HM) :=
    ⟨by simp [HandleTables.empty], by simp [HandleTables.empty], by simp [HandleTables.empty],
      by simp [HandleTables.empty]⟩
  obtain ⟨seen, hA⟩ := hempty.foldl hsub Forest.preorder_nodup (fun _ _ => Set.notMem_empty _)
    Forest.preorder_parentsFirst hfit.le
  exact hA.parents h d p hd hp

end Generic

/-! ## The merge -/

def mergeObjectClass := mergeClass objectClassKind

def mergeInteractionClass := mergeClass interactionClassKind

/-- One module: its object classes, then its interaction classes. -/
def mergeModule (st : Merging ObjectClassDef × Merging InteractionClassDef) (m : FomModule) :
    Except FomError (Merging ObjectClassDef × Merging InteractionClassDef) := do
  let objects ← m.objectClasses.foldlM (fun st cls => mergeObjectClass cls st) st.1
  let interactions ← m.interactionClasses.foldlM (fun st ic => mergeInteractionClass ic st) st.2
  return (objects, interactions)

/-- `merge_modules`. -/
def mergeModules (modules : List FomModule) : Except FomError MergedFom := do
  let (objects, interactions) ← modules.foldlM mergeModule (Merging.empty, Merging.empty)
  let o := assignHandles objectClassKind objects
  let i := assignHandles interactionClassKind interactions
  if ho : o.nextClass < 2 ^ 32 then
    if hi : i.nextClass < 2 ^ 32 then
      if o.nextMember < 2 ^ 32 ∧ i.nextMember < 2 ^ 32 then
        return {
          objectClasses := o.classes
          interactionClasses := i.classes
          objectClassTable := o.classTable
          attributeTable := o.memberTable
          interactionClassTable := i.classTable
          parameterTable := i.memberTable
          dimensionTable := ∅
          object_parent := fun _ _ _ hd hp => parents_assigned_first ho hd hp
          interaction_parent := fun _ _ _ hd hp => parents_assigned_first hi hd hp }
  throw .counterOverflow

end Hla4.Omt
