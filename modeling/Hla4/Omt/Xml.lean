/-
# `Hla4.Omt.Xml` — from the element tree to a FOM module

The XML reader delivers a tree: class elements with class elements in them.  A
module is flat, each class under its dotted name and with the name of its parent.
`intoFomModule` flattens the tree, parent before children, and reads the texts of
the enumerated fields on the way; the first it cannot read ends it.

Object and interaction elements are flattened by the same recursion, written
twice in the source.  Here it is written once, over what a class element has
besides its children (`F`) and over how that is made into a definition:

    flattenClass             flatten_object_class, flatten_interaction_class
    flattenAll               the loop over `children`

**Elements.**  `ElementAt tops path x` says that `x` is an element of the tree,
with `path` the names from `x` out to its top element, innermost first.  What
`flattenAll` returns are definitions for the elements, each under the dotted name
of its path (`flattenAll_of_element`, `flattenAll_only_elements`).

The identification of a module is read by nothing and left out, as in
`Hla4.Omt.Fom`.
-/
import Hla4.Lib.Checked
import Hla4.Omt.Fom

namespace Hla4.Omt

open Lib

/-! ## Enumerated fields -/

inductive EnumField
  | order
  | ownership
  | sharing
  | updateType
deriving DecidableEq

/-- `FomError::InvalidEnum`: the field, and the text found there. -/
structure InvalidEnum where
  field : EnumField
  other : String
deriving DecidableEq

def OrderTypeRef.fromXml : String → Except InvalidEnum OrderTypeRef
  | "Receive" => .ok .receive
  | "TimeStamp" => .ok .timestampOrder
  | "TimestampOrder" => .ok .timestampOrder
  | other => .error ⟨.order, other⟩

def Ownership.fromXml : String → Except InvalidEnum Ownership
  | "DivestAcquire" => .ok .divestAcquire
  | "NoTransfer" => .ok .noTransfer
  | other => .error ⟨.ownership, other⟩

def Sharing.fromXml : String → Except InvalidEnum Sharing
  | "Publish" => .ok .publish
  | "Subscribe" => .ok .subscribe
  | "PublishSubscribe" => .ok .publishSubscribe
  | "Neither" => .ok .neither
  | other => .error ⟨.sharing, other⟩

def UpdateType.fromXml : String → Except InvalidEnum UpdateType
  | "Static" => .ok .static
  | "Periodic" => .ok .periodic
  | "Conditional" => .ok .conditional
  | other => .error ⟨.updateType, other⟩

/-! ## Elements -/

structure XmlAttribute where
  name : String
  dataType : String
  updateType : String
  ownership : Option String
  sharing : Option String
  transportation : Option String
  order : Option String
  /-- the texts of the dimension elements -/
  dimensions : Option (List String)

structure XmlParameter where
  name : String
  dataType : String

/-- A class element: its own fields, and the class elements in it. -/
inductive XmlClass (F : Type)
  | mk (fields : F) (children : List (XmlClass F))

namespace XmlClass

variable {F : Type}

def fields : XmlClass F → F
  | mk fields _ => fields

def children : XmlClass F → List (XmlClass F)
  | mk _ children => children

end XmlClass

/-- The fields of an `objectClass` element. -/
structure XmlObjectFields where
  name : String
  semantics : Option String
  attributes : List XmlAttribute

/-- The fields of an `interactionClass` element. -/
structure XmlInteractionFields where
  name : String
  semantics : Option String
  transportation : Option String
  order : Option String
  parameters : List XmlParameter

abbrev XmlObjectClass := XmlClass XmlObjectFields

abbrev XmlInteractionClass := XmlClass XmlInteractionFields

structure XmlObjectModel where
  objects : Option (List XmlObjectClass)
  interactions : Option (List XmlInteractionClass)

/-! ## Flattening -/

def fqn (parent : Option String) (leaf : String) : String :=
  match parent with
  | some p => p ++ "." ++ leaf
  | none => leaf

section Flatten

variable {F D : Type} (name : F → String)
  (define : String → Option String → F → Except InvalidEnum D)

mutual

/-- A class element, then the class elements in it. -/
def flattenClass : XmlClass F → Option String → List D → Except InvalidEnum (List D)
  | .mk fields children, parentFqn, out => do
      let myFqn := fqn parentFqn (name fields)
      let d ← define myFqn parentFqn fields
      flattenAll children (some myFqn) (out ++ [d])

/-- Class elements with one parent, one after the other. -/
def flattenAll : List (XmlClass F) → Option String → List D → Except InvalidEnum (List D)
  | [], _, out => .ok out
  | child :: rest, parentFqn, out => do
      let out ← flattenClass child parentFqn out
      flattenAll rest parentFqn out

end

end Flatten

def XmlAttribute.intoDef (a : XmlAttribute) : Except InvalidEnum AttributeDef := do
  let order ← OrderTypeRef.fromXml (a.order.getD "Receive")
  let ownership ← Ownership.fromXml (a.ownership.getD "NoTransfer")
  let sharing ← Sharing.fromXml (a.sharing.getD "Neither")
  let updateType ← UpdateType.fromXml a.updateType
  return {
    name := a.name
    datatype := a.dataType
    order
    transportation := a.transportation.getD "HLAreliable"
    ownership
    sharing
    updateType
    dimensions := (a.dimensions.getD []).filter fun text => !text.isEmpty }

def XmlObjectFields.intoDef (myFqn : String) (parentFqn : Option String) (node : XmlObjectFields) :
    Except InvalidEnum ObjectClassDef := do
  let attributes ← node.attributes.mapM XmlAttribute.intoDef
  return { name := myFqn, parent := parentFqn, attributes, semantics := node.semantics }

def XmlInteractionFields.intoDef (myFqn : String) (parentFqn : Option String)
    (node : XmlInteractionFields) : Except InvalidEnum InteractionClassDef := do
  let order ← OrderTypeRef.fromXml (node.order.getD "Receive")
  return {
    name := myFqn
    parent := parentFqn
    order
    transportation := node.transportation.getD "HLAreliable"
    parameters := node.parameters.map fun p => ⟨p.name, p.dataType⟩
    semantics := node.semantics }

def flattenObjectClass := flattenClass XmlObjectFields.name XmlObjectFields.intoDef

def flattenInteractionClass := flattenClass XmlInteractionFields.name XmlInteractionFields.intoDef

namespace XmlObjectModel

/-- The top object class elements. -/
def objectElements (model : XmlObjectModel) : List XmlObjectClass := model.objects.getD []

/-- The top interaction class elements. -/
def interactionElements (model : XmlObjectModel) : List XmlInteractionClass :=
  model.interactions.getD []

/-- `into_fom_module`. -/
def intoFomModule (model : XmlObjectModel) : Except InvalidEnum FomModule := do
  let objectClasses ← model.objectElements.foldlM (fun out top => flattenObjectClass top none out) []
  let interactionClasses ←
    model.interactionElements.foldlM (fun out top => flattenInteractionClass top none out) []
  return { objectClasses, interactionClasses }

end XmlObjectModel

/-! ## The elements of a tree -/

/-- The names from an element out to its top element, written outside in. -/
def dotted : List String → String
  | [] => ""
  | [name] => name
  | name :: outer => dotted outer ++ "." ++ name

/-- The dotted name of what encloses an element, given the names around it. -/
def enclosingName : List String → Option String
  | [] => none
  | outer => some (dotted outer)

@[simp] theorem fqn_enclosingName (outer : List String) (leaf : String) :
    fqn (enclosingName outer) leaf = dotted (leaf :: outer) := by
  cases outer with
  | nil => rfl
  | cons => rfl

section Elements

variable {F D : Type} (name : F → String)

/-- `x` is an element of the tree with the given top elements, and `path` are
the names from it outward. -/
inductive ElementAt (tops : List (XmlClass F)) : List String → XmlClass F → Prop
  | top {x : XmlClass F} : x ∈ tops → ElementAt tops [name x.fields] x
  | child {x c : XmlClass F} {path : List String} :
      ElementAt tops path x → c ∈ x.children → ElementAt tops (name c.fields :: path) c

variable {name} {define : String → Option String → F → Except InvalidEnum D}
  {tops : List (XmlClass F)} {x : XmlClass F} {path : List String} {parentFqn : Option String}
  {out out' : List D}

theorem flattenClass_ok :
    flattenClass name define x parentFqn out = .ok out' ↔
      ∃ d, define (fqn parentFqn (name x.fields)) parentFqn x.fields = .ok d ∧
        flattenAll name define x.children (some (fqn parentFqn (name x.fields))) (out ++ [d]) =
          .ok out' := by
  obtain ⟨fields, children⟩ := x
  rw [flattenClass, bind_eq_ok]
  rfl

theorem flattenAll_cons_ok {rest : List (XmlClass F)} :
    flattenAll name define (x :: rest) parentFqn out = .ok out' ↔
      ∃ out₁, flattenClass name define x parentFqn out = .ok out₁ ∧
        flattenAll name define rest parentFqn out₁ = .ok out' := by
  rw [flattenAll, bind_eq_ok]

theorem foldlM_flattenClass (elements : List (XmlClass F)) (parentFqn : Option String)
    (out : List D) :
    elements.foldlM (fun out x => flattenClass name define x parentFqn out) out =
      flattenAll name define elements parentFqn out := by
  induction elements generalizing out with
  | nil => rfl
  | cons x rest ih =>
    rw [List.foldlM_cons, flattenAll]
    exact congrArg _ (funext ih)

/-! ### Every element has its definition -/

mutual

theorem subset_of_flattenClass : ∀ (x : XmlClass F) {parentFqn : Option String} {out out' : List D},
    flattenClass name define x parentFqn out = .ok out' → out ⊆ out'
  | .mk _ children, _, _, _, h => by
      obtain ⟨d, -, h⟩ := flattenClass_ok.mp h
      exact List.Subset.trans (List.subset_append_left _ [d]) (subset_of_flattenAll children h)

theorem subset_of_flattenAll : ∀ (elements : List (XmlClass F)) {parentFqn : Option String}
    {out out' : List D}, flattenAll name define elements parentFqn out = .ok out' → out ⊆ out'
  | [], _, _, _, h => by
      cases h
      exact List.Subset.refl _
  | x :: rest, _, _, _, h => by
      obtain ⟨out₁, hx, hrest⟩ := flattenAll_cons_ok.mp h
      exact List.Subset.trans (subset_of_flattenClass x hx) (subset_of_flattenAll rest hrest)

end

theorem flattenClass_of_mem {elements : List (XmlClass F)}
    (h : flattenAll name define elements parentFqn out = .ok out') (hx : x ∈ elements) :
    ∃ out₁ out₂, flattenClass name define x parentFqn out₁ = .ok out₂ ∧ out₂ ⊆ out' := by
  induction elements generalizing out with
  | nil => cases hx
  | cons y rest ih =>
    obtain ⟨out₁, hy, hrest⟩ := flattenAll_cons_ok.mp h
    rcases List.mem_cons.mp hx with rfl | hx
    · exact ⟨out, out₁, hy, subset_of_flattenAll rest hrest⟩
    · exact ih hrest hx

/-- An element is flattened with the dotted name of its path. -/
theorem ElementAt.flattened (hflat : flattenAll name define tops none [] = .ok out)
    (hx : ElementAt name tops path x) :
    ∃ outer out₁ out₂, path = name x.fields :: outer ∧
      flattenClass name define x (enclosingName outer) out₁ = .ok out₂ ∧ out₂ ⊆ out := by
  induction hx with
  | top hx =>
    obtain ⟨out₁, out₂, h, hsub⟩ := flattenClass_of_mem hflat hx
    exact ⟨[], out₁, out₂, rfl, h, hsub⟩
  | @child x c path hx hc ih =>
    obtain ⟨outer, out₁, out₂, rfl, h, hsub⟩ := ih
    obtain ⟨d, -, h⟩ := flattenClass_ok.mp h
    rw [fqn_enclosingName] at h
    obtain ⟨out₃, out₄, hchild, hsub'⟩ := flattenClass_of_mem h hc
    exact ⟨name x.fields :: outer, out₃, out₄, rfl, hchild, List.Subset.trans hsub' hsub⟩

/-- **Every element has its definition**, under the dotted name of its path. -/
theorem flattenAll_of_element (hflat : flattenAll name define tops none [] = .ok out)
    (hx : ElementAt name tops path x) :
    ∃ d ∈ out, define (dotted path) (enclosingName path.tail) x.fields = .ok d := by
  obtain ⟨outer, out₁, out₂, rfl, h, hsub⟩ := hx.flattened hflat
  obtain ⟨d, hd, h⟩ := flattenClass_ok.mp h
  rw [fqn_enclosingName] at hd
  exact ⟨d, hsub (subset_of_flattenAll _ h (by simp)), hd⟩

/-! ### Every definition is an element's -/

/-- The definition of some element. -/
def IsElement (name : F → String) (define : String → Option String → F → Except InvalidEnum D)
    (tops : List (XmlClass F)) (d : D) : Prop :=
  ∃ path x, ElementAt name tops path x ∧
    define (dotted path) (enclosingName path.tail) x.fields = .ok d

mutual

theorem isElement_of_flattenClass : ∀ (x : XmlClass F) (outer : List String) {out out' : List D},
    ElementAt name tops (name x.fields :: outer) x →
    flattenClass name define x (enclosingName outer) out = .ok out' →
    (∀ d ∈ out, IsElement name define tops d) → ∀ d ∈ out', IsElement name define tops d
  | .mk fields children, outer, out, out', hx, h, hout => by
      obtain ⟨d, hd, h⟩ := flattenClass_ok.mp h
      rw [fqn_enclosingName] at hd h
      refine isElement_of_flattenAll children (name fields :: outer)
        (fun c hc => hx.child hc) h fun e he => ?_
      rcases List.mem_append.mp he with he | he
      · exact hout e he
      · rw [List.mem_singleton.mp he]
        exact ⟨_, _, hx, hd⟩

theorem isElement_of_flattenAll : ∀ (elements : List (XmlClass F)) (outer : List String)
    {out out' : List D}, (∀ x ∈ elements, ElementAt name tops (name x.fields :: outer) x) →
    flattenAll name define elements (enclosingName outer) out = .ok out' →
    (∀ d ∈ out, IsElement name define tops d) → ∀ d ∈ out', IsElement name define tops d
  | [], _, _, _, _, h, hout => by
      cases h
      exact hout
  | x :: rest, _, _, _, hall, h, hout => by
      obtain ⟨hx, hall⟩ := List.forall_mem_cons.mp hall
      obtain ⟨out₁, hfirst, hrest⟩ := flattenAll_cons_ok.mp h
      exact isElement_of_flattenAll rest _ hall hrest (isElement_of_flattenClass x _ hx hfirst hout)

end

/-- **Every definition is an element's.** -/
theorem flattenAll_only_elements (hflat : flattenAll name define tops none [] = .ok out) {d : D}
    (hd : d ∈ out) :
    IsElement name define tops d :=
  isElement_of_flattenAll tops [] (fun _ hx => .top hx) hflat (by simp) d hd

end Elements

end Hla4.Omt
