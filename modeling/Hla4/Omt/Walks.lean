/-
# `Hla4.Omt.Walks` — walking a class hierarchy

Classes name their parents, and the code follows the names in both directions
without keeping track of where it has been:

    down   assign_object_class_handles and assign_interaction_class_handles
           recurse from a class into its children
    up     inheritance_chain goes from a class to its parent, and so does the
           loop of subscribers_for_interaction (`Hla4.Rti.Safety.Walks`)

Modules made by hand may name parents that are not there, a class as its own
parent, or parents in a circle.  Here the walks are as the source has them, with
fuel instead of a bound: a walk that does not end has the value `none` whatever
the fuel.

**Down.**  Called for a class on a cycle the recursion would not return
(`assignRecursively_cycle`).  It is called for the roots, no cycle can be reached
from there, and it returns on whatever was united (`assignsOnce`).

**Up.**  A parent had its handle before its children, so the handles of a way up
get smaller, and the way ends only at a class that names no parent: a parent that
is named by a class with a handle has one (`walksToRoot_ancestors`).
-/
import Hla4.Lib.Loop
import Hla4.Omt.ClassTree

namespace Hla4.Omt

open Lib

section Generic

variable {D M H HM : Type} [DecidableEq H] (k : ClassKind D M H HM)

/-! ## Down: assigning handles -/

/-- The call for one class, with the tables and the list of classes it has been
called for. -/
def assignRecursively (st : Merging D) :
    Nat → HandleTables D H HM × List String → String → Option (HandleTables D H HM × List String) :=
  (st.forest k).descend (visiting (assignOne k st))

/-- The calls for the roots, one after the other. -/
def assignFromRoots (st : Merging D) (fuel : Nat) : Option (HandleTables D H HM × List String) :=
  (st.forest k).roots.foldlM (assignRecursively k st fuel) (HandleTables.empty, [])

/-- The calls return with the tables of the merge, no class is visited twice, and
only classes that are defined. -/
def AssignsOnce (st : Merging D) : Prop :=
  ∃ visited, Returns (assignFromRoots k st) (assignHandles k st, visited) ∧ visited.Nodup ∧
    ∀ fqn ∈ visited, fqn ∈ st.merged

variable {k}

theorem assignFromRoots_returns (st : Merging D) :
    Returns (assignFromRoots k st) (assignHandles k st, (st.forest k).preorder) := by
  refine ⟨(st.forest k).nodes.length, fun fuel hfuel => ?_⟩
  rw [assignFromRoots, assignRecursively, Forest.foldlM_descend _ hfuel, foldl_visiting,
    assignHandles_eq]
  rfl

/-- **The recursion returns**, whatever the parents are. -/
theorem assignsOnce (st : Merging D) : AssignsOnce k st := by
  refine ⟨(st.forest k).preorder, assignFromRoots_returns st, Forest.preorder_nodup, fun fqn hfqn => ?_⟩
  exact (st.mem_order fqn).mp (Forest.preorder_subset hfqn)

/-- It is only that no root leads to a cycle: on one it does not return. -/
theorem assignRecursively_cycle {st : Merging D} {fqn : String}
    (h : Relation.TransGen (fun c p => c ∈ (st.forest k).children p) fqn fqn)
    (fuel : Nat) (s : HandleTables D H HM × List String) :
    assignRecursively k st fuel s fqn = none :=
  Forest.descend_eq_none_of_cycle h

/-! ## Up: from a class to a root -/

/-- A walk from `h` through smaller and smaller handles to a class without a
parent. -/
structure WalksToRoot (k : ClassKind D M H HM) (classes : HashMap H D) (h : H) (walk : List H) :
    Prop where
  starts : walk.head? = some h
  decreasing : walk.Pairwise fun g g' => k.rawHandle g' < k.rawHandle g
  nodup : walk.Nodup
  ends : ∃ root d, walk.getLast? = some root ∧ classes.lookup root = some d ∧ k.parent d = none

section Parents

variable {classes : HashMap H D} {classTable : HashMap String H}
  (hparent : ∀ h d p, classes.lookup h = some d → k.parent d = some p →
    ∃ q, classTable.lookup p = some q ∧ q ∈ classes ∧ k.rawHandle q < k.rawHandle h)

include hparent

theorem up_spec {h q : H} (hq : up k classes classTable h = some q) :
    q ∈ classes ∧ (k.rawHandle q).toNat < (k.rawHandle h).toNat := by
  simp only [up, Option.bind_eq_some_iff] at hq
  obtain ⟨d, hd, p, hp, hq⟩ := hq
  obtain ⟨q', hq', hmem, hlt⟩ := hparent h d p hd hp
  cases hq.symm.trans hq'
  exact ⟨hmem, UInt32.lt_iff_toNat_lt.mp hlt⟩

/-- Where the way up stops, no parent is named. -/
theorem parent_of_up_eq_none {h : H} (hh : h ∈ classes) (hnone : up k classes classTable h = none) :
    ∃ d, classes.lookup h = some d ∧ k.parent d = none := by
  obtain ⟨d, hd⟩ := HashMap.mem_iff_lookup.mp hh
  refine ⟨d, hd, Option.eq_none_iff_forall_ne_some.mpr fun p hp => ?_⟩
  obtain ⟨q, hq, -⟩ := hparent h d p hd hp
  simp [up, hd, hp, hq] at hnone

/-- **The way up from a class with a handle.** -/
theorem walksToRoot_ancestors {h : H} (hh : h ∈ classes) :
    WalksToRoot k classes h
      (ancestors (up k classes classTable) ((k.rawHandle h).toNat + 1) h) := by
  have hdec : ∀ g q, up k classes classTable g = some q →
      (k.rawHandle q).toNat < (k.rawHandle g).toNat := fun _ _ hq => (up_spec hparent hq).2
  have hpair := ancestors_decreasing (fun g => (k.rawHandle g).toNat) hdec
    ((k.rawHandle h).toNat + 1) h
  have hfuel : (k.rawHandle h).toNat < (k.rawHandle h).toNat + 1 := Nat.lt_succ_self _
  refine ⟨rfl, hpair.imp UInt32.lt_iff_toNat_lt.mpr, hpair.imp fun hlt he => ?_, ?_⟩
  · rw [he] at hlt
    exact Nat.lt_irrefl _ hlt
  · obtain ⟨root, hlast, hnone⟩ :=
      ancestors_getLast? (fun g => (k.rawHandle g).toNat) hdec hfuel
    -- whatever is met is `h` or the parent of something, and has a definition
    have hreached := (mem_ancestors (fun g => (k.rawHandle g).toNat) hdec hfuel).mp
      (List.mem_of_getLast? hlast)
    have hroot : root ∈ classes := by
      cases hreached with
      | refl => exact hh
      | tail _ hstep => exact (up_spec hparent hstep).1
    obtain ⟨d, hd, hp⟩ := parent_of_up_eq_none hparent hroot hnone
    exact ⟨root, d, hlast, hd, hp⟩

end Parents

end Generic

def assignObjectClassHandles := assignRecursively objectClassKind

def assignInteractionClassHandles := assignRecursively interactionClassKind

namespace MergedFom

variable (fom : MergedFom)

/-- `InheritanceIter::next`: the iterator holds the class it yields next. -/
def inheritanceIterNext (next : Option ObjectClassHandle) :
    Option (ObjectClassHandle × Option ObjectClassHandle) := do
  let current ← next
  let d ← fom.objectClassDef current
  return (current, d.parent.bind fom.objectClassHandle)

theorem inheritanceIterNext_eq {h : ObjectClassHandle} (hh : h ∈ fom.objectClasses) :
    fom.inheritanceIterNext (some h) = some (h, fom.parentObjectClass h) := by
  obtain ⟨d, hd⟩ := HashMap.mem_iff_lookup.mp hh
  have hdef : fom.objectClassDef h = some d := hd
  simp [inheritanceIterNext, parentObjectClass, hdef]

/-- **The iterator of `inheritance_chain` ends**, and yields the chain. -/
theorem inheritanceIter_returns (h : ObjectClassHandle) :
    Returns (exhaust fom.inheritanceIterNext · (some h)) (fom.inheritanceChain h) := by
  refine ⟨h.raw.toNat + 2, fun fuel hfuel => ?_⟩
  unfold inheritanceChain
  split
  · next hh =>
      refine exhaust_ancestors (P := (· ∈ fom.objectClasses)) (fun _ _ => parentObjectClass_lt) rfl
        (fun _ => fom.inheritanceIterNext_eq) (fun g q _ hq => ?_) hh (Nat.lt_succ_self h.raw.toNat)
        hfuel
      exact (up_spec (k := objectClassKind) fom.object_parent hq).1
  · next hh =>
      have hnone : fom.objectClassDef h = none := AList.lookup_eq_none.mpr hh
      obtain ⟨n, rfl⟩ := Nat.exists_eq_add_of_lt hfuel
      exact exhaust_of_none (by simp [inheritanceIterNext, hnone])

theorem walksToRoot_inheritanceChain {h : ObjectClassHandle} (hh : h ∈ fom.objectClasses) :
    WalksToRoot objectClassKind fom.objectClasses h (fom.inheritanceChain h) := by
  rw [inheritanceChain, if_pos hh]
  exact walksToRoot_ancestors (k := objectClassKind) fom.object_parent hh

theorem walksToRoot_interactionChain {h : InteractionClassHandle}
    (hh : h ∈ fom.interactionClasses) :
    WalksToRoot interactionClassKind fom.interactionClasses h (fom.interactionChain h) :=
  walksToRoot_ancestors (k := interactionClassKind) fom.interaction_parent hh

end MergedFom

end Hla4.Omt
