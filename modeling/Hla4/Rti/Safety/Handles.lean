/-
# `Hla4.Rti.Safety.Handles` — names and handles of the object model

Eight services translate between names and handles of classes and of their
members.  They read the tables of the merged FOM, the ones by name directly:

    getObjectClassHandle        object_class_table
    getObjectClassName          object_classes, and the name in the definition
    getAttributeHandle          attribute_table, for a defined class
    getAttributeName            the attributes the class lists, each through attribute_table

and so for interaction classes and parameters.  As the tables of a merged FOM
agree (`mergeModules_agrees`), each pair of services is a pair of inverses.
-/
import Hla4.Omt.Handles
import Hla4.Rti.Safety.Names

namespace Hla4

open Lib

/-! ## Encoded handles -/

/-- `encode_object_class` -/
def encodeObjectClass (h : ObjectClassHandle) : Bytes := toBe32 h.raw

/-- `encode_attribute` -/
def encodeAttribute (h : AttributeHandle) : Bytes := toBe32 h.raw

/-- `encode_interaction_class` -/
def encodeInteractionClass (h : InteractionClassHandle) : Bytes := toBe32 h.raw

/-- `encode_parameter` -/
def encodeParameter (h : ParameterHandle) : Bytes := toBe32 h.raw

theorem decodeObjectClass_encode (h : ObjectClassHandle) :
    decodeObjectClass (encodeObjectClass h) = some h := by
  rw [decodeObjectClass, encodeObjectClass, decodeU32_toBe32]
  rfl

theorem decodeAttribute_encode (h : AttributeHandle) :
    decodeAttribute (encodeAttribute h) = some h := by
  rw [decodeAttribute, encodeAttribute, decodeU32_toBe32]
  rfl

theorem decodeInteractionClass_encode (h : InteractionClassHandle) :
    decodeInteractionClass (encodeInteractionClass h) = some h := by
  rw [decodeInteractionClass, encodeInteractionClass, decodeU32_toBe32]
  rfl

theorem decodeParameter_encode (h : ParameterHandle) :
    decodeParameter (encodeParameter h) = some h := by
  rw [decodeParameter, encodeParameter, decodeU32_toBe32]
  rfl

/-! ## Answers -/

variable {c : Caller} {fed : Federation} {a : String}

/-- The answer to a lookup. -/
def answer (c : Caller) (fed : Federation) (r : LookupRequest) : Resp :=
  (serve c fed (.lookup r)).response

theorem answer_eq_iff {r : LookupRequest} {resp : Resp} (hm : r.missingHandle = none)
    (hresp : resp.accepted = true) : answer c fed r = resp ↔ lookupResponse c fed r = .ok resp := by
  simp only [answer, serve, serveLookup, hm]
  cases hr : lookupResponse c fed r with
  | error =>
    refine ⟨?_, fun h => by cases h⟩
    rintro rfl
    cases hresp
  | ok =>
    exact ⟨fun h => congrArg _ h, fun h => Except.ok.inj h⟩

theorem answer_getObjectClassHandle {h : ObjectClassHandle} :
    answer c fed (.getObjectClassHandle a) = .getObjectClassHandle h ↔
      fed.fom.objectClassTable.lookup a = some h := by
  rw [answer_eq_iff rfl rfl]
  simp [-bind_pure_comp, pure_eq_ok, lookupResponse, bind_eq_ok, Omt.MergedFom.objectClassHandle]

theorem answer_getObjectClassName {h : ObjectClassHandle} :
    answer c fed (.getObjectClassName (some (encodeObjectClass h))) = .getObjectClassName a ↔
      ∃ d, fed.fom.objectClasses.lookup h = some d ∧ d.name = a := by
  rw [answer_eq_iff rfl rfl]
  simp [-bind_pure_comp, pure_eq_ok, lookupResponse, objectClassOf, objectClassArg,
    decodeObjectClass_encode, bind_eq_ok, Omt.MergedFom.objectClassDef]

theorem answer_getAttributeHandle {h : ObjectClassHandle} {attr : AttributeHandle} :
    answer c fed (.getAttributeHandle (some (encodeObjectClass h)) a) = .getAttributeHandle attr ↔
      h ∈ fed.fom.objectClasses ∧ fed.fom.attributeTable.lookup (h, a) = some attr := by
  rw [answer_eq_iff rfl rfl]
  simp [-bind_pure_comp, pure_eq_ok, lookupResponse, getAttributeHandle, objectClassOf,
    objectClassArg, decodeObjectClass_encode, bind_eq_ok, HashMap.mem_iff_lookup,
    Omt.MergedFom.objectClassDef, Omt.MergedFom.attributeHandle]

theorem answer_getAttributeName {h : ObjectClassHandle} {attr : AttributeHandle} :
    answer c fed (.getAttributeName (some (encodeObjectClass h)) (some (encodeAttribute attr))) =
        .getAttributeName a ↔
      ∃ d, fed.fom.objectClasses.lookup h = some d ∧ ∃ m, (d.attributes.find? fun m =>
        decide (fed.fom.attributeTable.lookup (h, m.name) = some attr)) = some m ∧ m.name = a := by
  rw [answer_eq_iff rfl rfl]
  simp [-bind_pure_comp, pure_eq_ok, lookupResponse, getAttributeName, objectClassArg,
    decodeObjectClass_encode, decodeAttribute_encode, bind_eq_ok, Omt.MergedFom.objectClassDef,
    Omt.MergedFom.attributeHandle]
  rfl

theorem answer_getInteractionClassHandle {h : InteractionClassHandle} :
    answer c fed (.getInteractionClassHandle a) = .getInteractionClassHandle h ↔
      fed.fom.interactionClassTable.lookup a = some h := by
  rw [answer_eq_iff rfl rfl]
  simp [-bind_pure_comp, pure_eq_ok, lookupResponse, bind_eq_ok,
    Omt.MergedFom.interactionClassHandle]

theorem answer_getInteractionClassName {h : InteractionClassHandle} :
    answer c fed (.getInteractionClassName (some (encodeInteractionClass h))) =
        .getInteractionClassName a ↔
      ∃ d, fed.fom.interactionClasses.lookup h = some d ∧ d.name = a := by
  rw [answer_eq_iff rfl rfl]
  simp [-bind_pure_comp, pure_eq_ok, lookupResponse, interactionClassOf, decodeInteractionOrErr,
    decodeInteractionClass_encode, bind_eq_ok, Omt.MergedFom.interactionClassDef]

theorem answer_getParameterHandle {h : InteractionClassHandle} {param : ParameterHandle} :
    answer c fed (.getParameterHandle (some (encodeInteractionClass h)) a) =
        .getParameterHandle param ↔
      h ∈ fed.fom.interactionClasses ∧ fed.fom.parameterTable.lookup (h, a) = some param := by
  rw [answer_eq_iff rfl rfl]
  simp [-bind_pure_comp, pure_eq_ok, lookupResponse, getParameterHandle, interactionClassOf,
    decodeInteractionOrErr, decodeInteractionClass_encode, bind_eq_ok, HashMap.mem_iff_lookup,
    Omt.MergedFom.interactionClassDef, Omt.MergedFom.parameterHandle]

theorem answer_getParameterName {h : InteractionClassHandle} {param : ParameterHandle} :
    answer c fed (.getParameterName (some (encodeInteractionClass h))
        (some (encodeParameter param))) = .getParameterName a ↔
      ∃ d, fed.fom.interactionClasses.lookup h = some d ∧ ∃ m, (d.parameters.find? fun m =>
        decide (fed.fom.parameterTable.lookup (h, m.name) = some param)) = some m ∧ m.name = a := by
  rw [answer_eq_iff rfl rfl]
  simp [-bind_pure_comp, pure_eq_ok, lookupResponse, getParameterName, decodeInteractionOrErr,
    decodeInteractionClass_encode, decodeParameter_encode, bind_eq_ok,
    Omt.MergedFom.interactionClassDef, Omt.MergedFom.parameterHandle]
  rfl

/-! ## Inverse services -/

/-- `ofName` answers a name with a handle exactly if `ofHandle` answers the handle
with the name, and every known handle is answered. -/
structure Inverse {H : Type} (known : H → Prop) (ofName : String → Resp) (handle : H → Resp)
    (ofHandle : H → Resp) (name : String → Resp) : Prop where
  back : ∀ a h, ofName a = handle h ↔ ofHandle h = name a
  answered : ∀ h, known h → ∃ a, ofHandle h = name a

theorem Inverse.of_table {H : Type} {known : H → Prop} {ofName : String → Resp} {handle : H → Resp}
    {ofHandle : H → Resp} {name : String → Resp} {table : String → Option H}
    (hname : ∀ a h, ofName a = handle h ↔ table a = some h)
    (hhandle : ∀ a h, ofHandle h = name a ↔ table a = some h)
    (hknown : ∀ h, known h → ∃ a, table a = some h) : Inverse known ofName handle ofHandle name where
  back := fun a h => (hname a h).trans (hhandle a h).symm
  answered := fun h hh => (hknown h hh).imp fun a => (hhandle a h).mpr

/-- **The tables of a merged FOM agree**, whatever the modules: names and classes
undo each other, class handles are 1 to n, member handles are distinct, and a
class has handles for the members it lists.  So in a federation with that FOM the
services that translate names and handles are inverse to each other, for classes
and, class by class, for members. -/
theorem handles_consistent {modules : List Omt.FomModule} {fom : Omt.MergedFom}
    (hmerge : Omt.mergeModules modules = .ok fom) :
    fom.Agrees ∧ ∀ c fed, fed.fom = fom →
      Inverse (· ∈ fom.objectClasses)
        (fun a => answer c fed (.getObjectClassHandle a)) .getObjectClassHandle
        (fun h => answer c fed (.getObjectClassName (some (encodeObjectClass h))))
        .getObjectClassName ∧
      (∀ h ∈ fom.objectClasses, Inverse (fun attr => ∃ a, fom.attributeTable.lookup (h, a) = some attr)
        (fun a => answer c fed (.getAttributeHandle (some (encodeObjectClass h)) a))
        .getAttributeHandle
        (fun attr => answer c fed (.getAttributeName (some (encodeObjectClass h))
          (some (encodeAttribute attr)))) .getAttributeName) ∧
      Inverse (· ∈ fom.interactionClasses)
        (fun a => answer c fed (.getInteractionClassHandle a)) .getInteractionClassHandle
        (fun h => answer c fed (.getInteractionClassName (some (encodeInteractionClass h))))
        .getInteractionClassName ∧
      ∀ h ∈ fom.interactionClasses,
        Inverse (fun param => ∃ a, fom.parameterTable.lookup (h, a) = some param)
          (fun a => answer c fed (.getParameterHandle (some (encodeInteractionClass h)) a))
          .getParameterHandle
          (fun param => answer c fed (.getParameterName (some (encodeInteractionClass h))
            (some (encodeParameter param)))) .getParameterName := by
  have hagrees := Omt.mergeModules_agrees modules fom hmerge
  refine ⟨hagrees, ?_⟩
  rintro c fed rfl
  obtain ⟨hobj, hint⟩ := hagrees
  refine ⟨?_, ?_, ?_, ?_⟩
  · refine .of_table (fun _ _ => answer_getObjectClassHandle)
      (fun a h => answer_getObjectClassName.trans (hobj.names a h).symm) fun h hh => ?_
    obtain ⟨d, hd⟩ := HashMap.mem_iff_lookup.mp hh
    exact ⟨d.name, (hobj.names d.name h).mpr ⟨d, hd, rfl⟩⟩
  · intro h hh
    refine .of_table (fun a attr => ?_)
      (fun a attr => answer_getAttributeName.trans hobj.find_member) fun _ hattr => hattr
    rw [answer_getAttributeHandle, and_iff_right hh]
  · refine .of_table (fun _ _ => answer_getInteractionClassHandle)
      (fun a h => answer_getInteractionClassName.trans (hint.names a h).symm) fun h hh => ?_
    obtain ⟨d, hd⟩ := HashMap.mem_iff_lookup.mp hh
    exact ⟨d.name, (hint.names d.name h).mpr ⟨d, hd, rfl⟩⟩
  · intro h hh
    refine .of_table (fun a param => ?_)
      (fun a param => answer_getParameterName.trans hint.find_member) fun _ hparam => hparam
    rw [answer_getParameterHandle, and_iff_right hh]

/-- A class before its parent, with an attribute it lists twice. -/
def childFirst : Omt.FomModule where
  objectClasses :=
    [⟨"O.C", some "O", [⟨"b", "", .receive, "", .noTransfer, .neither, .static, []⟩,
        ⟨"b", "x", .receive, "", .noTransfer, .neither, .static, []⟩], none⟩,
      ⟨"O", none, [⟨"a", "", .receive, "", .noTransfer, .neither, .static, []⟩], none⟩]
  interactionClasses := [⟨"I", none, .receive, "", [⟨"p", ""⟩], none⟩]

/-- The parent has handle 1, the child 2, and the attribute listed twice the
second of its handles. -/
theorem handles_consistent_childFirst :
    ∃ fom, Omt.mergeModules [childFirst] = .ok fom ∧ fom.Agrees ∧
      fom.objectClassHandle "O" = some ⟨1⟩ ∧ fom.objectClassHandle "O.C" = some ⟨2⟩ ∧
      fom.attributeHandle ⟨2⟩ "b" = some ⟨3⟩ := by
  obtain ⟨fom, hfom, hrest⟩ : ∃ fom ∈ (Omt.mergeModules [childFirst]).toOption,
      fom.objectClassHandle "O" = some ⟨1⟩ ∧ fom.objectClassHandle "O.C" = some ⟨2⟩ ∧
      fom.attributeHandle ⟨2⟩ "b" = some ⟨3⟩ := by
    decide +kernel
  have hmerge := toOption_eq_some.mp hfom
  exact ⟨fom, hmerge, (handles_consistent hmerge).1, hrest⟩

end Hla4
