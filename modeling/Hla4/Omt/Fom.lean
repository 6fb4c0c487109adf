/-
# `Hla4.Omt.Fom` — FOM modules and the merged FOM

A FOM module lists object and interaction classes by fully qualified name, each
with the name of its parent.  A merged FOM gives every class, attribute and
parameter a handle and answers the lookups the server makes.

What a module carries besides its classes (identification, datatype library,
dimension names) is read by no function of the server and is left out.

**Parents come first.**  In a merged FOM the parent of a class has a smaller
handle than the class.  `MergedFom` carries this as a field, so the two walks
toward the root, `inheritanceChain` for object classes and `interactionChain`
for interaction classes, end on every merged FOM; the handle itself is fuel
enough.  `Hla4.Omt.Merge` builds merged FOMs and discharges the fields.
-/
import Hla4.Core
import Hla4.Lib.Forest
import Hla4.Lib.HashMap

namespace Hla4.Omt

open Lib

inductive OrderTypeRef
  | receive
  | timestampOrder
deriving DecidableEq

inductive Ownership
  | divestAcquire
  | noTransfer
deriving DecidableEq

inductive Sharing
  | publish
  | subscribe
  | publishSubscribe
  | neither
deriving DecidableEq

inductive UpdateType
  | static
  | periodic
  | conditional
deriving DecidableEq

structure AttributeDef where
  name : String
  datatype : String
  order : OrderTypeRef
  transportation : String
  ownership : Ownership
  sharing : Sharing
  updateType : UpdateType
  dimensions : List String
deriving DecidableEq

/-- An object class: `name` is the dotted FQN, `parent` the FQN of the
enclosing class. -/
structure ObjectClassDef where
  name : String
  parent : Option String
  attributes : List AttributeDef
  semantics : Option String
deriving DecidableEq

structure ParameterDef where
  name : String
  datatype : String
deriving DecidableEq

structure InteractionClassDef where
  name : String
  parent : Option String
  order : OrderTypeRef
  transportation : String
  parameters : List ParameterDef
  semantics : Option String
deriving DecidableEq

structure FomModule where
  objectClasses : List ObjectClassDef
  interactionClasses : List InteractionClassDef

/-- Handles for everything the modules define. -/
structure MergedFom where
  objectClasses : HashMap ObjectClassHandle ObjectClassDef
  interactionClasses : HashMap InteractionClassHandle InteractionClassDef
  objectClassTable : HashMap String ObjectClassHandle
  attributeTable : HashMap (ObjectClassHandle × String) AttributeHandle
  interactionClassTable : HashMap String InteractionClassHandle
  parameterTable : HashMap (InteractionClassHandle × String) ParameterHandle
  dimensionTable : HashMap String DimensionHandle
  object_parent : ∀ h d p, objectClasses.lookup h = some d → d.parent = some p →
    ∃ q, objectClassTable.lookup p = some q ∧ q ∈ objectClasses ∧ q.raw < h.raw
  interaction_parent : ∀ h d p, interactionClasses.lookup h = some d → d.parent = some p →
    ∃ q, interactionClassTable.lookup p = some q ∧ q ∈ interactionClasses ∧ q.raw < h.raw

namespace MergedFom

/-- `MergedFom::new`: no classes at all. -/
def new : MergedFom where
  objectClasses := ∅
  interactionClasses := ∅
  objectClassTable := ∅
  attributeTable := ∅
  interactionClassTable := ∅
  parameterTable := ∅
  dimensionTable := ∅
  object_parent := fun h d p hd => by simp at hd
  interaction_parent := fun h d p hd => by simp at hd

variable (fom : MergedFom)

def objectClassHandle (name : String) : Option ObjectClassHandle :=
  fom.objectClassTable.lookup name

def objectClassDef (handle : ObjectClassHandle) : Option ObjectClassDef :=
  fom.objectClasses.lookup handle

def attributeHandle (cls : ObjectClassHandle) (name : String) : Option AttributeHandle :=
  fom.attributeTable.lookup (cls, name)

def interactionClassHandle (name : String) : Option InteractionClassHandle :=
  fom.interactionClassTable.lookup name

def interactionClassDef (handle : InteractionClassHandle) : Option InteractionClassDef :=
  fom.interactionClasses.lookup handle

def parameterHandle (cls : InteractionClassHandle) (name : String) : Option ParameterHandle :=
  fom.parameterTable.lookup (cls, name)

def dimensionHandle (name : String) : Option DimensionHandle :=
  fom.dimensionTable.lookup name

/-! ## Toward the root -/

/-- The handle of a class's parent. -/
def parentObjectClass (handle : ObjectClassHandle) : Option ObjectClassHandle :=
  (fom.objectClassDef handle).bind fun d => d.parent.bind fom.objectClassHandle

/-- The handle of an interaction class's parent. -/
def parentInteractionClass (handle : InteractionClassHandle) : Option InteractionClassHandle :=
  (fom.interactionClassDef handle).bind fun d => d.parent.bind fom.interactionClassHandle

/-- A class and its ancestors, the class first.  The iterator yields nothing
for an undefined class; a parent is always defined. -/
def inheritanceChain (handle : ObjectClassHandle) : List ObjectClassHandle :=
  if handle ∈ fom.objectClasses then
    ancestors fom.parentObjectClass (handle.raw.toNat + 1) handle
  else []

/-- The classes `subscribers_for_interaction` looks at: the class, defined or
not, and its ancestors. -/
def interactionChain (handle : InteractionClassHandle) : List InteractionClassHandle :=
  ancestors fom.parentInteractionClass (handle.raw.toNat + 1) handle

variable {fom}

theorem parentObjectClass_lt {h q : ObjectClassHandle} (hq : fom.parentObjectClass h = some q) :
    q.raw.toNat < h.raw.toNat := by
  simp only [parentObjectClass, Option.bind_eq_some_iff] at hq
  obtain ⟨d, hd, p, hp, hq⟩ := hq
  obtain ⟨q', hq', _, hlt⟩ := fom.object_parent h d p hd hp
  cases hq.symm.trans hq'
  exact UInt32.lt_iff_toNat_lt.mp hlt

theorem parentInteractionClass_lt {h q : InteractionClassHandle}
    (hq : fom.parentInteractionClass h = some q) : q.raw.toNat < h.raw.toNat := by
  simp only [parentInteractionClass, Option.bind_eq_some_iff] at hq
  obtain ⟨d, hd, p, hp, hq⟩ := hq
  obtain ⟨q', hq', _, hlt⟩ := fom.interaction_parent h d p hd hp
  cases hq.symm.trans hq'
  exact UInt32.lt_iff_toNat_lt.mp hlt

/-- `c` is `h` or an ancestor of `h`. -/
def ObjectAncestor (fom : MergedFom) (h c : ObjectClassHandle) : Prop :=
  Relation.ReflTransGen (fun a b => fom.parentObjectClass a = some b) h c

/-- `c` is `h` or an ancestor of `h`. -/
def InteractionAncestor (fom : MergedFom) (h c : InteractionClassHandle) : Prop :=
  Relation.ReflTransGen (fun a b => fom.parentInteractionClass a = some b) h c

/-- The chain of a class is the class with its ancestors, all of them. -/
theorem mem_inheritanceChain {h c : ObjectClassHandle} :
    c ∈ fom.inheritanceChain h ↔ h ∈ fom.objectClasses ∧ fom.ObjectAncestor h c := by
  unfold inheritanceChain
  split
  · next hd =>
      have hmem : c ∈ ancestors fom.parentObjectClass (h.raw.toNat + 1) h ↔
          fom.ObjectAncestor h c :=
        mem_ancestors (fun h : ObjectClassHandle => h.raw.toNat)
          (fun _ _ => parentObjectClass_lt) (Nat.lt_succ_self h.raw.toNat)
      exact hmem.trans ⟨fun ha => ⟨hd, ha⟩, fun ha => ha.2⟩
  · next hd => exact ⟨fun hc => (List.not_mem_nil hc).elim, fun hc => absurd hc.1 hd⟩

theorem mem_interactionChain {h c : InteractionClassHandle} :
    c ∈ fom.interactionChain h ↔ fom.InteractionAncestor h c :=
  mem_ancestors (fun h : InteractionClassHandle => h.raw.toNat)
    (fun _ _ => parentInteractionClass_lt) (Nat.lt_succ_self h.raw.toNat)

end MergedFom

end Hla4.Omt
