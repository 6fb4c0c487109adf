/-
# `Hla4.Rti.Safety.Walks` — every class hierarchy can be walked

Whatever the modules: where they can be united the recursion that assigns handles
returns and visits no class twice, and in a merged FOM the two ways up from a
class with a handle end, through smaller and smaller handles, at a class without
a parent.

The way up of interaction classes is a loop of the router, `while let Some(c) =
current`.  `subscribersLoop` is that loop; it collects what
`subscribersForInteraction` says, and goes through `interactionChain`.
-/
import Hla4.Omt.Walks
import Hla4.Rti.Routing

namespace Hla4

open Lib

namespace Federation

variable (fed : Federation)

/-- The loop of `subscribers_for_interaction`: the subscribers so far, the classes
it has been to, and the class it goes on with. -/
def subscribersLoop (exclude : Option FederateHandle) :
    Nat → HashSet FederateHandle × List InteractionClassHandle → Option InteractionClassHandle →
      Option (HashSet FederateHandle × List InteractionClassHandle) :=
  whileLet fun s c =>
    (visiting (fun out c => out.extend
        ((fed.subscriptions.byInteraction.get c).keys.filter fun f => some f ≠ exclude)) s c,
      (fed.fom.interactionClassDef c).bind fun d => d.parent.bind fed.fom.interactionClassHandle)

theorem subscribersLoop_returns (cls : InteractionClassHandle) (exclude : Option FederateHandle) :
    Returns (fed.subscribersLoop exclude · (∅, []) (some cls))
      (fed.subscribersForInteraction cls exclude, fed.fom.interactionChain cls) := by
  refine ⟨cls.raw.toNat + 2, fun fuel hfuel => ?_⟩
  have hdec : ∀ h q, fed.fom.parentInteractionClass h = some q → q.raw.toNat < h.raw.toNat :=
    fun _ _ => Omt.MergedFom.parentInteractionClass_lt
  have hloop := whileLet_ancestors hdec
    (visiting fun out c => HashSet.extend out
      ((fed.subscriptions.byInteraction.get c).keys.filter fun f => some f ≠ exclude))
    (Nat.lt_succ_self cls.raw.toNat) hfuel (∅, [])
  rw [foldl_visiting] at hloop
  rw [subscribersForInteraction, HashSet.ofList, HashSet.extend, List.foldl_flatMap]
  exact hloop

end Federation

open Omt

/-- **Class hierarchies can always be walked.** -/
theorem classes_walkable (modules : List FomModule) :
    (∀ objects interactions,
      modules.foldlM mergeModule (.empty, .empty) = .ok (objects, interactions) →
      AssignsOnce objectClassKind objects ∧ AssignsOnce interactionClassKind interactions) ∧
    ∀ fom, mergeModules modules = .ok fom →
      (∀ h ∈ fom.objectClasses, ∃ walk, Returns (exhaust fom.inheritanceIterNext · (some h)) walk ∧
        WalksToRoot objectClassKind fom.objectClasses h walk) ∧
      ∀ fed : Federation, fed.fom = fom → ∀ exclude, ∀ h ∈ fom.interactionClasses,
        ∃ out walk, Returns (fed.subscribersLoop exclude · (∅, []) (some h)) (out, walk) ∧
          WalksToRoot interactionClassKind fom.interactionClasses h walk := by
  refine ⟨fun objects interactions _ => ⟨assignsOnce objects, assignsOnce interactions⟩,
    fun fom _ => ⟨fun h hh => ?_, ?_⟩⟩
  · exact ⟨_, fom.inheritanceIter_returns h, fom.walksToRoot_inheritanceChain hh⟩
  · rintro fed rfl exclude h hh
    exact ⟨_, _, fed.subscribersLoop_returns h exclude, fed.fom.walksToRoot_interactionChain hh⟩

/-- An object class and an interaction class without members. -/
def bareClasses (name : String) (parent : Option String) : FomModule :=
  ⟨[⟨name, parent, [], none⟩], [⟨name, parent, .receive, "HLAreliable", [], none⟩]⟩

/-- A root with a child, a class whose parent is missing, a class that is its own
parent, and two that are each other's. -/
def tangledModules : List FomModule :=
  [bareClasses "Child" (some "Root"), bareClasses "Orphan" (some "Missing"),
    bareClasses "Self" (some "Self"), bareClasses "This" (some "That"),
    bareClasses "That" (some "This"), bareClasses "Root" none]

theorem classes_walkable_tangled :
    ∃ objects interactions fom h i,
      tangledModules.foldlM mergeModule (.empty, .empty) = .ok (objects, interactions) ∧
      AssignsOnce objectClassKind objects ∧ AssignsOnce interactionClassKind interactions ∧
      (∀ fuel s, assignObjectClassHandles objects fuel s "Self" = none) ∧
      (∀ fuel s, assignInteractionClassHandles interactions fuel s "This" = none) ∧
      mergeModules tangledModules = .ok fom ∧
      fom.objectClassHandle "Child" = some h ∧ fom.interactionClassHandle "Child" = some i ∧
      (∃ walk, Returns (exhaust fom.inheritanceIterNext · (some h)) walk ∧
        WalksToRoot objectClassKind fom.objectClasses h walk) ∧
      ∃ out walk, Returns ((Federation.new "f" fom).subscribersLoop none · (∅, []) (some i))
        (out, walk) ∧ WalksToRoot interactionClassKind fom.interactionClasses i walk := by
  have hunited : ∃ st ∈ (tangledModules.foldlM mergeModule (.empty, .empty)).toOption,
      "Self" ∈ (st.1.forest objectClassKind).children "Self" ∧
      "This" ∈ (st.2.forest interactionClassKind).children "That" ∧
      "That" ∈ (st.2.forest interactionClassKind).children "This" := by decide +kernel
  have hmerged : ∃ fom ∈ (mergeModules tangledModules).toOption,
      fom.objectClassHandle "Child" = some ⟨2⟩ ∧ ⟨2⟩ ∈ fom.objectClasses ∧
      fom.interactionClassHandle "Child" = some ⟨2⟩ ∧ ⟨2⟩ ∈ fom.interactionClasses := by
    decide +kernel
  obtain ⟨⟨objects, interactions⟩, hst, hself, hthis, hthat⟩ := hunited
  obtain ⟨fom, hfom, hh, hhmem, hi, himem⟩ := hmerged
  have hst := toOption_eq_some.mp hst
  have hfom := toOption_eq_some.mp hfom
  obtain ⟨hassign, hwalk⟩ := classes_walkable tangledModules
  obtain ⟨hup, hloop⟩ := hwalk fom hfom
  refine ⟨objects, interactions, fom, ⟨2⟩, ⟨2⟩, hst, (hassign _ _ hst).1, (hassign _ _ hst).2,
    ?_, ?_, hfom, hh, hi, hup _ hhmem, hloop (.new "f" fom) rfl none _ himem⟩
  · exact assignRecursively_cycle (.single hself)
  · exact assignRecursively_cycle (.tail (.single hthis) hthat)

end Hla4
