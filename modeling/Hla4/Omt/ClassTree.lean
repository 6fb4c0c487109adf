/-
# `Hla4.Omt.ClassTree` — the class tree of the documents in the merged FOM

Documents are flattened to modules and the modules are merged.  The tree of class
elements is still there afterwards, as names and handles:

    elements    every class element has a handle, under the dotted name of its
                path, and the chain of that handle goes through the handles of
                the elements around it, innermost first, to the top element
    only        every class of the merged FOM is an element of some document

A name may itself contain dots, and then two elements at different places can
have the same dotted name.  They have different parents, and the merge refuses
them.  So in what is merged the dotted name of an element decides that of its
parent, and the forest of the merged names (`Merging.forest`) has the path of
every element as a path.
-/
import Hla4.Omt.Union
import Hla4.Omt.Xml

namespace Hla4.Omt

open Lib

/-- A path with the paths of the enclosing elements, innermost first. -/
def enclosing : List String → List (List String)
  | [] => []
  | name :: outer => (name :: outer) :: enclosing outer

section Generic

variable {F D M H HM R : Type} [DecidableEq M] [DecidableEq H] {k : ClassKind D M H HM}
  {rest : D → R} {st : Merging D} {definitions : Set D}

omit [DecidableEq M] [DecidableEq H] in
/-- The path of an element is a path of the forest. -/
theorem ElementAt.path {name : F → String} {tops : List (XmlClass F)} {path : List String}
    {x : XmlClass F} (hx : ElementAt name tops path x) (h : Unites k definitions st)
    (hdef : ∀ path x, ElementAt name tops path x →
      ∃ d ∈ definitions, k.name d = dotted path ∧ k.parent d = enclosingName path.tail) :
    (st.forest k).Path ((enclosing path).map dotted) ∧ (enclosing path).map dotted ⊆ st.order := by
  have hparent : ∀ {path x}, ElementAt name tops path x → dotted path ∈ st.order ∧
      (st.forest k).parent (dotted path) = enclosingName path.tail := by
    intro path x hx
    obtain ⟨d, hd, hname, hpar⟩ := hdef path x hx
    rw [← hname, ← hpar]
    exact h.forest_parent hd
  induction hx with
  | top hx =>
    obtain ⟨hmem, hpar⟩ := hparent (.top hx)
    exact ⟨.root hpar, by simpa [enclosing] using hmem⟩
  | @child x c path hx hc ih =>
    obtain ⟨hmem, hpar⟩ := hparent (hx.child hc)
    cases path with
    | nil => cases hx
    | cons =>
      refine ⟨.child hpar ih.1, List.cons_subset.mpr ⟨hmem, ih.2⟩⟩

/-- The parent of a handle. -/
def up (k : ClassKind D M H HM) (classes : HashMap H D) (classTable : HashMap String H) (h : H) :
    Option H :=
  (classes.lookup h).bind fun d => (k.parent d).bind classTable.lookup

omit [DecidableEq M] in
/-- The names on a path within the forest have handles, and the way up from the
first handle goes through them. -/
theorem Filed.ancestors_eq {classes : HashMap H D} {classTable : HashMap String H}
    (hf : Filed k st classes classTable) (rank : H → Nat)
    (hdec : ∀ x y, up k classes classTable x = some y → rank y < rank x) {n : String}
    {l : List String} (hpath : (st.forest k).Path (n :: l)) (hsub : n :: l ⊆ st.order) :
    ∃ h, classTable.lookup n = some h ∧ h ∈ classes ∧
      (ancestors (up k classes classTable) (rank h + 1) h).map some =
        (n :: l).map classTable.lookup := by
  have hall : ∀ m ∈ n :: l, ∃ h, classTable.lookup m = some h := by
    intro m hm
    obtain ⟨s, t, hst⟩ := List.append_of_mem hm
    have hsuffix : m :: t <:+ n :: l := ⟨s, hst.symm⟩
    exact HashMap.mem_iff_lookup.mp ((hf.reached m).mpr
      (Forest.mem_preorder.mpr ⟨t, hpath.of_suffix hsuffix, List.Subset.trans hsuffix.subset hsub⟩))
  obtain ⟨h, hh⟩ := hall n List.mem_cons_self
  obtain ⟨d, hd, -⟩ := (hf.names n h).mp hh
  refine ⟨h, hh, HashMap.mem_of_lookup hd, ?_⟩
  refine ancestors_along rank hdec (fun m g hg => ?_) hpath
    (fun m hm => hall m (List.mem_cons_of_mem n hm)) hh (Nat.lt_succ_self _)
  obtain ⟨e, he, rfl⟩ := (hf.names m g).mp hg
  simp only [up, he, Merging.forest, hf.merged g e he, Option.bind_some]

end Generic

/-! ## Documents -/

/-- The class elements of the documents, given by their top elements, are the
classes of a table of handles. -/
structure TreeSurvives {F H : Type} (name : F → String) (documents : List (List (XmlClass F)))
    (handle : String → Option H) (defined : H → Prop) (chain : H → List H) : Prop where
  elements : ∀ tops ∈ documents, ∀ path x, ElementAt name tops path x →
    ∃ h, handle (dotted path) = some h ∧ defined h ∧
      (chain h).map some = (enclosing path).map fun p => handle (dotted p)
  only : ∀ h, defined h →
    ∃ tops ∈ documents, ∃ path x, ElementAt name tops path x ∧ handle (dotted path) = some h
  names : ∀ n h, handle n = some h →
    ∃ tops ∈ documents, ∃ path x, ElementAt name tops path x ∧ n = dotted path

section Generic

variable {F D M H HM R : Type} [DecidableEq M] [DecidableEq H] {k : ClassKind D M H HM}
  {rest : D → R} {st : Merging D}

/-- What is merged from the flattened documents, once it has handles. -/
theorem Filed.treeSurvives (hk : k.Keeps rest) {name : F → String}
    {define : String → Option String → F → Except InvalidEnum D}
    (hdefine : ∀ myFqn parentFqn fields d, define myFqn parentFqn fields = .ok d →
      k.name d = myFqn ∧ k.parent d = parentFqn)
    {documents : List (List (XmlClass F))} {definitions : List D}
    (hto : ∀ tops ∈ documents, ∃ out ⊆ definitions, flattenAll name define tops none [] = .ok out)
    (hfrom : ∀ d ∈ definitions, ∃ tops ∈ documents, ∃ out,
      flattenAll name define tops none [] = .ok out ∧ d ∈ out)
    (hmerge : mergeClasses k definitions .empty = .ok st) {classes : HashMap H D}
    {classTable : HashMap String H} (hf : Filed k st classes classTable) (rank : H → Nat)
    (hdec : ∀ x y, up k classes classTable x = some y → rank y < rank x) {chain : H → List H}
    (hchain : ∀ h ∈ classes, chain h = ancestors (up k classes classTable) (rank h + 1) h) :
    TreeSurvives name documents classTable.lookup (· ∈ classes) chain := by
  have hunites := unites_of_mergeClasses hk hmerge
  have hnames : ∀ n h, classTable.lookup n = some h →
      ∃ tops ∈ documents, ∃ path x, ElementAt name tops path x ∧ n = dotted path := by
    intro n h hh
    have hn : n ∈ st.merged := (st.mem_order n).mp
      (Forest.preorder_subset ((hf.reached n).mp (HashMap.mem_of_lookup hh)))
    obtain ⟨d, hd, rfl⟩ := (hunites.mem_iff n).mp hn
    obtain ⟨tops, htops, out, hflat, hd⟩ := hfrom d hd
    obtain ⟨path, x, hx, hdef⟩ := flattenAll_only_elements hflat hd
    exact ⟨tops, htops, path, x, hx, (hdefine _ _ _ d hdef).1⟩
  refine ⟨fun tops htops path x hx => ?_, fun h hh => ?_, hnames⟩
  · obtain ⟨out, hsub, hflat⟩ := hto tops htops
    have hpath := hx.path hunites fun path x hx => by
      obtain ⟨d, hd, hdef⟩ := flattenAll_of_element hflat hx
      exact ⟨d, hsub hd, hdefine _ _ _ d hdef⟩
    cases path with
    | nil => cases hx
    | cons =>
      obtain ⟨h, hh, hdefined, hchain'⟩ := hf.ancestors_eq rank hdec hpath.1 hpath.2
      refine ⟨h, hh, hdefined, ?_⟩
      rw [hchain h hdefined, hchain']
      simp [enclosing]
  · obtain ⟨d, hd⟩ := HashMap.mem_iff_lookup.mp hh
    have hname : classTable.lookup (k.name d) = some h := (hf.names _ h).mpr ⟨d, hd, rfl⟩
    obtain ⟨tops, htops, path, x, hx, he⟩ := hnames _ h hname
    exact ⟨tops, htops, path, x, hx, he ▸ hname⟩

end Generic

theorem XmlObjectFields.intoDef_ok (myFqn : String) (parentFqn : Option String)
    (fields : XmlObjectFields) (d : ObjectClassDef) (h : fields.intoDef myFqn parentFqn = .ok d) :
    d.name = myFqn ∧ d.parent = parentFqn := by
  rw [intoDef, bind_eq_ok] at h
  obtain ⟨attributes, -, h⟩ := h
  cases h
  exact ⟨rfl, rfl⟩

theorem XmlInteractionFields.intoDef_ok (myFqn : String) (parentFqn : Option String)
    (fields : XmlInteractionFields) (d : InteractionClassDef)
    (h : fields.intoDef myFqn parentFqn = .ok d) : d.name = myFqn ∧ d.parent = parentFqn := by
  rw [intoDef, bind_eq_ok] at h
  obtain ⟨order, -, h⟩ := h
  cases h
  exact ⟨rfl, rfl⟩

theorem XmlObjectModel.intoFomModule_ok {model : XmlObjectModel} {m : FomModule}
    (h : model.intoFomModule = .ok m) :
    flattenAll XmlObjectFields.name XmlObjectFields.intoDef model.objectElements none [] =
      .ok m.objectClasses ∧
    flattenAll XmlInteractionFields.name XmlInteractionFields.intoDef
      model.interactionElements none [] = .ok m.interactionClasses := by
  rw [intoFomModule, bind_eq_ok] at h
  obtain ⟨objects, ho, h⟩ := h
  rw [bind_eq_ok] at h
  obtain ⟨interactions, hi, h⟩ := h
  cases h
  exact ⟨(foldlM_flattenClass _ _ _).symm.trans ho, (foldlM_flattenClass _ _ _).symm.trans hi⟩

/-- The definitions of the modules are the flattened elements of the documents. -/
theorem flattened_of_parse {F D : Type} {name : F → String}
    {define : String → Option String → F → Except InvalidEnum D}
    {elements : XmlObjectModel → List (XmlClass F)} {classes : FomModule → List D}
    (hflat : ∀ model m, XmlObjectModel.intoFomModule model = .ok m →
      flattenAll name define (elements model) none [] = .ok (classes m))
    {models : List XmlObjectModel} {modules : List FomModule}
    (hparse : models.mapM XmlObjectModel.intoFomModule = .ok modules) :
    (∀ tops ∈ models.map elements, ∃ out ⊆ modules.flatMap classes,
      flattenAll name define tops none [] = .ok out) ∧
    ∀ d ∈ modules.flatMap classes, ∃ tops ∈ models.map elements, ∃ out,
      flattenAll name define tops none [] = .ok out ∧ d ∈ out := by
  obtain ⟨hto, hfrom⟩ := mem_of_mapM hparse
  constructor
  · intro tops htops
    obtain ⟨model, hmodel, rfl⟩ := List.mem_map.mp htops
    obtain ⟨m, hm, hinto⟩ := hto model hmodel
    exact ⟨classes m, fun d hd => List.mem_flatMap.mpr ⟨m, hm, hd⟩, hflat model m hinto⟩
  · intro d hd
    obtain ⟨m, hm, hd⟩ := List.mem_flatMap.mp hd
    obtain ⟨model, hmodel, hinto⟩ := hfrom m hm
    exact ⟨_, List.mem_map.mpr ⟨model, hmodel, rfl⟩, classes m, hflat model m hinto, hd⟩

/-- **The class tree survives parsing and merging**, whatever the documents:
every class element has a handle under its dotted path, every class of the merged
FOM is an element, and the chain of a handle is the path of its element. -/
theorem class_tree_survives {models : List XmlObjectModel} {modules : List FomModule}
    {fom : MergedFom} (hparse : models.mapM XmlObjectModel.intoFomModule = .ok modules)
    (hmerge : mergeModules modules = .ok fom) :
    TreeSurvives XmlObjectFields.name (models.map (·.objectElements)) fom.objectClassHandle
      (· ∈ fom.objectClasses) fom.inheritanceChain ∧
    TreeSurvives XmlInteractionFields.name (models.map (·.interactionElements))
      fom.interactionClassHandle (· ∈ fom.interactionClasses) fom.interactionChain := by
  obtain ⟨o, i, hm⟩ := mergeModules_ok hmerge
  constructor
  · obtain ⟨hto, hfrom⟩ := flattened_of_parse
      (fun _ _ hinto => (XmlObjectModel.intoFomModule_ok hinto).1) hparse
    refine hm.objects_filed.treeSurvives objectClassKind_keeps XmlObjectFields.intoDef_ok hto hfrom
      hm.objects (fun h : ObjectClassHandle => h.raw.toNat)
      (fun _ _ => MergedFom.parentObjectClass_lt) fun h hh => ?_
    rw [MergedFom.inheritanceChain, if_pos hh]
    rfl
  · obtain ⟨hto, hfrom⟩ := flattened_of_parse
      (fun _ _ hinto => (XmlObjectModel.intoFomModule_ok hinto).2) hparse
    exact hm.interactions_filed.treeSurvives interactionClassKind_keeps
      XmlInteractionFields.intoDef_ok hto hfrom hm.interactions
      (fun h : InteractionClassHandle => h.raw.toNat)
      (fun _ _ => MergedFom.parentInteractionClass_lt) fun _ _ => rfl

/-- A class element without fields but its name. -/
def plainElement (name : String) (children : List XmlObjectClass) : XmlObjectClass :=
  .mk ⟨name, none, []⟩ children

/-- Two documents, which both have the class of food. -/
def foodModels : List XmlObjectModel :=
  [⟨some [plainElement "Root" [plainElement "Food" [plainElement "Drink" []]]], none⟩,
    ⟨some [plainElement "Root" [plainElement "Food" [plainElement "Main" []]]], none⟩]

theorem class_tree_survives_food :
    ∃ modules fom h, foodModels.mapM XmlObjectModel.intoFomModule = .ok modules ∧
      mergeModules modules = .ok fom ∧
      fom.objectClassHandle "Root.Food.Main" = some h ∧
      (fom.inheritanceChain h).map some =
        [fom.objectClassHandle "Root.Food.Main", fom.objectClassHandle "Root.Food",
          fom.objectClassHandle "Root"] := by
  have hparse : ∃ modules ∈ (foodModels.mapM XmlObjectModel.intoFomModule).toOption,
      (mergeModules modules).toOption.isSome := by decide +kernel
  obtain ⟨modules, hmodules, hfom⟩ := hparse
  obtain ⟨fom, hfom⟩ := Option.isSome_iff_exists.mp hfom
  have hmodules := toOption_eq_some.mp hmodules
  have hfom := toOption_eq_some.mp hfom
  let main := plainElement "Main" []
  let food := plainElement "Food" [main]
  let root := plainElement "Root" [food]
  have hroot : ElementAt XmlObjectFields.name [root] ["Root"] root := .top List.mem_cons_self
  have hfood : ElementAt XmlObjectFields.name [root] ["Food", "Root"] food :=
    hroot.child List.mem_cons_self
  have hmain : ElementAt XmlObjectFields.name [root] ["Main", "Food", "Root"] main :=
    hfood.child List.mem_cons_self
  obtain ⟨h, hh, -, hchain⟩ := (class_tree_survives hmodules hfom).1.elements _
    (List.mem_cons_of_mem _ List.mem_cons_self) _ _ hmain
  exact ⟨modules, fom, h, hmodules, hfom, hh, hchain⟩

end Hla4.Omt
