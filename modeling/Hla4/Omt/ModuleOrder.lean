/-
# `Hla4.Omt.ModuleOrder` — when the order of the modules does not matter

Definitions of different classes do not meet in a merge (`mergeClasses_isOk_iff`),
so the question is what becomes of the definitions of one class in another order.

    one module defines it      they come in the same order
    several modules define it  they are accepted in every order or in none, if
                               each of them says one thing of each name: then the
                               merge compares them two by two (`Agree`)

Two things stand in the way.  A definition that says two things of one name is
accepted in the first place and refused in every other.  And what is neither
parent, member nor semantics (the order and the transportation of an interaction
class) is the first definition's, whatever the others say.  `Orderless` excludes
both, and nothing else: where some order of the modules merges, all orders merge
alike exactly if the modules are `Orderless` (`merge_orderless`).

A member that a definition lists twice gets two handles in the first place and
one in every other.  So the number of handles can depend on the order; `Roomy`
keeps it away from the end of `u32`.
-/
import Hla4.Omt.Conflicts
import Mathlib.Algebra.BigOperators.Group.Finset.Piecewise
import Mathlib.Algebra.Order.BigOperators.Group.Finset

namespace Hla4.Omt

open Lib

section Members

variable {D M H HM : Type} [DecidableEq M] {k : ClassKind D M H HM} {className : String} {m : M}
  {members target target' : List M}

/-- Members are accepted that say what the list says of their names, and one
thing of each. -/
theorem mergeMembers_isOk (hms : OneMeaning k members)
    (h : ∀ m ∈ members, ∀ t ∈ target, k.memberName t = k.memberName m → t = m) :
    ∃ target', mergeMembers k className members target = .ok target' := by
  induction members generalizing target with
  | nil => exact ⟨target, rfl⟩
  | cons m members ih =>
    obtain ⟨hm, hrest⟩ := List.forall_mem_cons.mp h
    obtain ⟨target₁, hm⟩ : ∃ target₁, mergeMember k className m target = .ok target₁ := by
      unfold mergeMember
      split
      · next existing hfind =>
          have hname : k.memberName existing = k.memberName m := by
            simpa using List.find?_some hfind
          have he := hm existing (List.mem_of_find?_eq_some hfind) hname
          exact ⟨target, if_neg (not_not.mpr he)⟩
      · exact ⟨_, rfl⟩
    obtain ⟨target', ht'⟩ := ih (fun a ha b hb => hms a (.tail _ ha) b (.tail _ hb))
      fun n hn t ht hname => by
        rcases (mem_of_mergeMember hm t).mp ht with rfl | ht
        · exact hms t List.mem_cons_self n (.tail _ hn) hname
        · exact hrest n hn t ht hname
    exact ⟨target', by rw [mergeMembers, List.foldlM_cons, hm]; exact ht'⟩

theorem find_of_mergeMember (h : mergeMember k className m target = .ok target') :
    target'.find? (fun n => k.memberName n = k.memberName m) = some m := by
  unfold mergeMember at h
  split at h
  · next existing hfind =>
      split at h
      · cases h
      · next he =>
          cases h
          rw [hfind, not_not.mp he]
  · next hfind =>
      cases h
      rw [List.find?_append, hfind]
      simp

/-- What is accepted after another definition says one thing of each name. -/
theorem oneMeaning_of_mergeMembers (h : mergeMembers k className members target = .ok target') :
    OneMeaning k members := by
  have hfind : ∀ m ∈ members,
      target'.find? (fun n => k.memberName n = k.memberName m) = some m := by
    induction members generalizing target with
    | nil => simp
    | cons m members ih =>
      rw [mergeMembers, List.foldlM_cons, bind_eq_ok] at h
      obtain ⟨target₁, hm, hrest⟩ := h
      refine List.forall_mem_cons.mpr ⟨?_, ih hrest⟩
      exact (extends_mergeMembers hrest).begins.find?_eq_some (find_of_mergeMember hm)
  intro m hm n hn hname
  have hfound := hfind m hm
  rw [hname, hfind n hn] at hfound
  exact (Option.some.inj hfound).symm

end Members

section Classes

variable {D M H HM R : Type} [DecidableEq M] {k : ClassKind D M H HM} {rest : D → R}
  {definitions definitions' : List D} {cls : D} {st st' st₁ : Merging D} {name : String}

/-! ## Definitions two by two -/

/-- The two definitions have the same parent, and say the same of the members
they both have. -/
def Agree (k : ClassKind D M H HM) (d e : D) : Prop :=
  k.parent d = k.parent e ∧
    ∀ m ∈ k.members d, ∀ n ∈ k.members e, k.memberName m = k.memberName n → m = n

/-- Definitions of one name agree, two by two and each with itself. -/
def AllAgree (k : ClassKind D M H HM) (definitions : Set D) : Prop :=
  ∀ d ∈ definitions, ∀ e ∈ definitions, k.name d = k.name e → Agree k d e

theorem Unites.mergeClass_isOk {met : Set D} (h : Unites k met st)
    (hagree : AllAgree k (insert cls met)) : ∃ st', Omt.mergeClass k cls st = .ok st' := by
  unfold Omt.mergeClass
  split
  · next e he =>
      have hu := h.united _ e he
      obtain ⟨d, hd, hname⟩ := hu.nonempty
      have hparent := (hu.parent d ⟨hd, hname⟩).symm.trans (hagree d (.inr hd) cls (.inl rfl) hname).1
      obtain ⟨members, hmembers⟩ : ∃ members,
          mergeMembers k (k.name cls) (k.members cls) (k.members e) = .ok members := by
        refine mergeMembers_isOk (hagree cls (.inl rfl) cls (.inl rfl) rfl).2 fun m hm t ht => ?_
        obtain ⟨d, ⟨hd, hname⟩, hdt⟩ := (hu.members t).mp ht
        exact (hagree d (.inr hd) cls (.inl rfl) hname).2 t hdt m hm
      rw [if_neg (not_not.mpr hparent)]
      exact ⟨_, bind_eq_ok.mpr ⟨members, hmembers, rfl⟩⟩
  · exact ⟨_, rfl⟩

theorem Unites.mergeClasses_isOk (hk : k.Keeps rest) {met : Set D} (h : Unites k met st)
    (hagree : AllAgree k (met ∪ {d | d ∈ definitions})) :
    ∃ st', Omt.mergeClasses k definitions st = .ok st' := by
  induction definitions generalizing met st with
  | nil => exact ⟨st, rfl⟩
  | cons cls definitions ih =>
    have hmono : ∀ {s : Set D}, s ⊆ met ∪ {d | d ∈ cls :: definitions} → AllAgree k s :=
      fun hs d hd e he => hagree d (hs hd) e (hs he)
    obtain ⟨st₁, hst₁⟩ := h.mergeClass_isOk (hmono fun d hd => hd.elim
      (fun he => .inr (he ▸ List.mem_cons_self)) .inl)
    obtain ⟨st', hst'⟩ := ih (h.mergeClass hk hst₁) (hmono fun d hd => hd.elim
      (fun hd => hd.elim (fun he => .inr (he ▸ List.mem_cons_self)) .inl) fun hd => .inr (.tail _ hd))
    exact ⟨st', mergeClasses_cons.mpr ⟨st₁, hst₁, hst'⟩⟩

/-- Every definition says one thing of each name. -/
def AllOneMeaning (k : ClassKind D M H HM) (definitions : List D) : Prop :=
  ∀ d ∈ definitions, OneMeaning k (k.members d)

theorem AllOneMeaning.merged (hk : k.Keeps rest) (hone : AllOneMeaning k definitions)
    (hst : mergeClasses k definitions .empty = .ok st) {u : D} (hu : st.merged.lookup name = some u) :
    OneMeaning k (k.members u) := by
  obtain ⟨d, hd, hext, -⟩ := (fromFirst_empty.mergeClasses hk hst).first name u hu
  exact hext.oneMeaning (hone d (mem_of_firstNamed hd).1)

/-- **They are accepted exactly if those of one name agree.** -/
theorem AllOneMeaning.isOk_iff (hk : k.Keeps rest) (hone : AllOneMeaning k definitions) :
    (∃ st, mergeClasses k definitions .empty = .ok st) ↔ AllAgree k {d | d ∈ definitions} := by
  constructor
  · rintro ⟨st, hst⟩ d hd e he hname
    have hunites := unites_of_mergeClasses hk hst
    obtain ⟨u, hu⟩ := HashMap.mem_iff_lookup.mp ((hunites.mem_iff (k.name d)).mpr ⟨d, hd, rfl⟩)
    have hfrom := hunites.united _ u hu
    refine ⟨(hfrom.parent d ⟨hd, rfl⟩).trans (hfrom.parent e ⟨he, hname.symm⟩).symm, ?_⟩
    intro m hm n hn
    exact hone.merged hk hst hu m ((hfrom.members m).mpr ⟨d, ⟨hd, rfl⟩, hm⟩) n
      ((hfrom.members n).mpr ⟨e, ⟨he, hname.symm⟩, hn⟩)
  · intro hagree
    exact unites_empty.mergeClasses_isOk hk (by rwa [Set.empty_union])

omit [DecidableEq M] in
theorem AllOneMeaning.perm (hone : AllOneMeaning k definitions)
    (hp : definitions.Perm definitions') : AllOneMeaning k definitions' :=
  fun d hd => hone d (hp.mem_iff.mpr hd)

theorem AllOneMeaning.isOk_perm (hk : k.Keeps rest) (hone : AllOneMeaning k definitions)
    (hp : definitions.Perm definitions') :
    (∃ st, mergeClasses k definitions .empty = .ok st) ↔
      ∃ st', mergeClasses k definitions' .empty = .ok st' := by
  have hset : {d | d ∈ definitions} = {d | d ∈ definitions'} := Set.ext fun _ => hp.mem_iff
  rw [hone.isOk_iff hk, (hone.perm hp).isOk_iff hk, hset]

/-- In another order they make the same classes, up to the order of the
members. -/
theorem AllOneMeaning.find_eq (hk : k.Keeps rest) (hone : AllOneMeaning k definitions)
    (hp : definitions.Perm definitions') (hst : mergeClasses k definitions .empty = .ok st)
    (hst' : mergeClasses k definitions' .empty = .ok st') {u u' : D}
    (hu : st.merged.lookup name = some u) (hu' : st'.merged.lookup name = some u') (a : String) :
    (k.members u).find? (fun m => k.memberName m = a) =
      (k.members u').find? fun m => k.memberName m = a := by
  have hset : {d | d ∈ definitions} = {d | d ∈ definitions'} := Set.ext fun _ => hp.mem_iff
  refine Option.ext fun m => ?_
  rw [(hone.merged hk hst hu).find_iff, ((hone.perm hp).merged hk hst' hu').find_iff,
    ((unites_of_mergeClasses hk hst).united name u hu).members,
    ((unites_of_mergeClasses hk hst').united name u' hu').members, hset]

/-! ## Classes do not meet -/

theorem lookup_mergeClass (hk : k.Keeps rest) (h : mergeClass k cls st = .ok st')
    (hne : k.name cls ≠ name) : st'.merged.lookup name = st.merged.lookup name := by
  obtain ⟨u, hu, -⟩ := mergeClass_ok hk h
  rw [hu, HashMap.lookup_insert_eq, if_neg hne.symm]

/-- What a definition becomes is decided by what its name has been. -/
theorem mergeClass_congr (hl : st₁.merged.lookup (k.name cls) = st.merged.lookup (k.name cls))
    (h : mergeClass k cls st = .ok st') :
    ∃ st₁', mergeClass k cls st₁ = .ok st₁' ∧
      st₁'.merged.lookup (k.name cls) = st'.merged.lookup (k.name cls) := by
  unfold mergeClass at h ⊢
  split at h
  · next e he =>
      split
      · next e₁ he₁ =>
          cases he₁.symm.trans (hl.trans he)
          dsimp only at h ⊢
          split at h
          · cases h
          · next hparent =>
              rw [if_neg hparent]
              rw [bind_eq_ok] at h
              obtain ⟨members, hmembers, h⟩ := h
              cases h
              refine ⟨_, bind_eq_ok.mpr ⟨members, hmembers, rfl⟩, ?_⟩
              simp only [HashMap.lookup_insert_eq, if_pos]
      · next hnone =>
          rw [hl, he] at hnone
          cases hnone
  · next hnone =>
      cases h
      split
      · next e₁ he₁ =>
          rw [hl, hnone] at he₁
          cases he₁
      · exact ⟨_, rfl, by simp only [HashMap.lookup_insert_eq, if_pos]⟩

/-- The definitions of a name, in order. -/
def definitionsOf (k : ClassKind D M H HM) (name : String) (definitions : List D) : List D :=
  definitions.filter fun d => k.name d = name

theorem mergeClasses_definitionsOf (hk : k.Keeps rest) (name : String)
    (hl : st₁.merged.lookup name = st.merged.lookup name)
    (h : mergeClasses k definitions st = .ok st') :
    ∃ st₁', mergeClasses k (definitionsOf k name definitions) st₁ = .ok st₁' ∧
      st₁'.merged.lookup name = st'.merged.lookup name := by
  induction definitions generalizing st st₁ with
  | nil =>
    cases h
    exact ⟨st₁, rfl, hl⟩
  | cons cls definitions ih =>
    obtain ⟨st₂, hcls, hrest⟩ := mergeClasses_cons.mp h
    by_cases hname : k.name cls = name
    · subst hname
      obtain ⟨st₃, hcls₃, hl₃⟩ := mergeClass_congr hl hcls
      obtain ⟨st₁', hst₁', hl'⟩ := ih hl₃ hrest
      rw [definitionsOf, List.filter_cons_of_pos (by simp)]
      exact ⟨st₁', mergeClasses_cons.mpr ⟨st₃, hcls₃, hst₁'⟩, hl'⟩
    · rw [definitionsOf, List.filter_cons_of_neg (by simpa using hname)]
      exact ih (hl.trans (lookup_mergeClass hk hcls hname).symm) hrest

theorem mergeClasses_of_definitionsOf (hk : k.Keeps rest)
    (h : ∀ name, ∃ st₁ st₁', st₁.merged.lookup name = st.merged.lookup name ∧
      mergeClasses k (definitionsOf k name definitions) st₁ = .ok st₁') :
    ∃ st', mergeClasses k definitions st = .ok st' := by
  induction definitions generalizing st with
  | nil => exact ⟨st, rfl⟩
  | cons cls definitions ih =>
    obtain ⟨st₁, st₁', hl, hst₁⟩ := h (k.name cls)
    rw [definitionsOf, List.filter_cons_of_pos (by simp)] at hst₁
    obtain ⟨st₂, hcls, hrest⟩ := mergeClasses_cons.mp hst₁
    obtain ⟨st₃, hcls₃, hl₃⟩ := mergeClass_congr hl.symm hcls
    obtain ⟨st', hst'⟩ : ∃ st', mergeClasses k definitions st₃ = .ok st' := by
      refine ih fun name => ?_
      by_cases hname : k.name cls = name
      · subst hname
        exact ⟨st₂, st₁', hl₃.symm, hrest⟩
      · obtain ⟨st₁, st₁', hl, hst₁⟩ := h name
        rw [definitionsOf, List.filter_cons_of_neg (by simpa using hname)] at hst₁
        exact ⟨st₁, st₁', hl.trans (lookup_mergeClass hk hcls₃ hname).symm, hst₁⟩
    exact ⟨st', mergeClasses_cons.mpr ⟨st₃, hcls₃, hst'⟩⟩

/-- A list is accepted exactly if the definitions of each name are. -/
theorem mergeClasses_isOk_iff (hk : k.Keeps rest) :
    (∃ st, mergeClasses k definitions .empty = .ok st) ↔
      ∀ name, ∃ st, mergeClasses k (definitionsOf k name definitions) .empty = .ok st := by
  constructor
  · rintro ⟨st, hst⟩ name
    obtain ⟨st₁, hst₁, -⟩ := mergeClasses_definitionsOf hk name rfl hst
    exact ⟨st₁, hst₁⟩
  · intro h
    exact mergeClasses_of_definitionsOf hk fun name =>
      (h name).elim fun st hst => ⟨.empty, st, rfl, hst⟩

/-! ## Groups of definitions -/

/-- Several of the groups define the class. -/
def Shared (k : ClassKind D M H HM) (groups : List (List D)) (name : String) : Prop :=
  1 < groups.countP fun ds => name ∈ ds.map k.name

/-- If several groups define a class, each of its definitions says one thing of
each name.  And if the parents of the class lead to a root, the groups begin
with definitions that have the rest in common. -/
structure OrderFree (k : ClassKind D M H HM) (rest : D → R) (groups : List (List D)) : Prop where
  oneMeaning : ∀ ds ∈ groups, ∀ d ∈ ds, Shared k groups (k.name d) → OneMeaning k (k.members d)
  rest : ∀ ds ∈ groups, ∀ es ∈ groups, ∀ name d e, firstNamed k ds name = some d →
    firstNamed k es name = some e → Rooted k {d | d ∈ groups.flatten} name → rest d = rest e

variable {groups groups' : List (List D)}

omit [DecidableEq M] in
theorem definitionsOf_nil {ds : List D} (h : name ∉ ds.map k.name) : definitionsOf k name ds = [] :=
  List.filter_eq_nil_iff.mpr fun d hd he => h (List.mem_map.mpr ⟨d, hd, of_decide_eq_true he⟩)

omit [DecidableEq M] in
/-- Of a class that one group defines the definitions stay in order. -/
theorem definitionsOf_perm (hp : groups.Perm groups')
    (h : ¬ Shared k groups name) :
    definitionsOf k name groups.flatten = definitionsOf k name groups'.flatten := by
  induction hp with
  | nil => rfl
  | cons ds hp ih =>
    rw [Shared, List.countP_cons, not_lt] at h
    rw [definitionsOf, definitionsOf, List.flatten_cons, List.flatten_cons, List.filter_append,
      List.filter_append]
    exact congrArg _ (ih (not_lt.mpr (le_trans (Nat.le_add_right ..) h)))
  | swap ds es =>
    simp only [definitionsOf, List.flatten_cons, List.filter_append, ← List.append_assoc]
    congr 1
    by_cases hd : name ∈ ds.map k.name
    · by_cases he : name ∈ es.map k.name
      · refine absurd ?_ h
        rw [Shared, List.countP_cons_of_pos (by simpa using he),
          List.countP_cons_of_pos (by simpa using hd)]
        omega
      · rw [show es.filter _ = [] from definitionsOf_nil he, List.nil_append, List.append_nil]
    · rw [show ds.filter _ = [] from definitionsOf_nil hd, List.nil_append, List.append_nil]
  | trans hp _ ih ih' =>
    refine (ih h).trans (ih' ?_)
    rwa [Shared, ← hp.countP_eq]

omit [DecidableEq M] in
/-- The first definition of all is the first of a group. -/
theorem firstNamed_flatten {d : D}
    (h : firstNamed k groups.flatten name = some d) :
    ∃ ds ∈ groups, firstNamed k ds name = some d := by
  induction groups with
  | nil => cases h
  | cons ds groups ih =>
    rw [firstNamed, List.flatten_cons, List.find?_append, Option.or_eq_some_iff] at h
    rcases h with h | ⟨-, h⟩
    · exact ⟨ds, List.mem_cons_self, h⟩
    · obtain ⟨es, hes, hd⟩ := ih h
      exact ⟨es, .tail _ hes, hd⟩

/-- The same classes are reached, with the same parent, the same members by name
and the same rest. -/
structure SameUnion (k : ClassKind D M H HM) (rest : D → R) (st st' : Merging D) : Prop where
  reached : (st.forest k).preorder.Perm (st'.forest k).preorder
  parent : ∀ name u u', st.merged.lookup name = some u → st'.merged.lookup name = some u' →
    k.parent u = k.parent u'
  found : ∀ name u u', st.merged.lookup name = some u → st'.merged.lookup name = some u' →
    ∀ a, (k.members u).find? (fun m => k.memberName m = a) =
      (k.members u').find? fun m => k.memberName m = a
  rest : ∀ name ∈ (st.forest k).preorder, ∀ u u', st.merged.lookup name = some u →
    st'.merged.lookup name = some u' → rest u = rest u'

omit [DecidableEq M] in
theorem OrderFree.allOneMeaning (h : OrderFree k rest groups) (hs : Shared k groups name) :
    AllOneMeaning k (definitionsOf k name groups.flatten) := by
  intro d hd
  obtain ⟨hd, hname⟩ := List.mem_filter.mp hd
  obtain ⟨ds, hds, hd⟩ := List.mem_flatten.mp hd
  exact h.oneMeaning ds hds d hd (of_decide_eq_true hname ▸ hs)

/-- **Groups that are free of order** are accepted in every order or in none. -/
theorem OrderFree.isOk_iff (hk : k.Keeps rest) (h : OrderFree k rest groups)
    (hp : groups.Perm groups') :
    (∃ st, mergeClasses k groups.flatten .empty = .ok st) ↔
      ∃ st', mergeClasses k groups'.flatten .empty = .ok st' := by
  rw [mergeClasses_isOk_iff hk, mergeClasses_isOk_iff hk]
  refine forall_congr' fun name => ?_
  by_cases hs : Shared k groups name
  · exact (h.allOneMeaning hs).isOk_perm hk (hp.flatten.filter _)
  · rw [definitionsOf_perm hp hs]

/-- They have the same union in every order. -/
theorem OrderFree.sameUnion (hk : k.Keeps rest) (h : OrderFree k rest groups)
    (hp : groups.Perm groups') (hst : mergeClasses k groups.flatten .empty = .ok st)
    (hst' : mergeClasses k groups'.flatten .empty = .ok st') : SameUnion k rest st st' := by
  have hset : {d | d ∈ groups'.flatten} = {d | d ∈ groups.flatten} :=
    Set.ext fun _ => hp.flatten.mem_iff.symm
  have hu := unites_of_mergeClasses hk hst
  have hu' := unites_of_mergeClasses hk hst'
  rw [hset] at hu'
  refine ⟨?_, fun name u u' hl hl' => ?_, fun name u u' hl hl' => ?_, fun name hr u u' hl hl' => ?_⟩
  · refine (List.perm_ext_iff_of_nodup Forest.preorder_nodup Forest.preorder_nodup).mpr fun x => ?_
    rw [← hu.rooted_iff, hu'.rooted_iff]
  · obtain ⟨d, hd⟩ := (hu.united name u hl).nonempty
    exact ((hu.united name u hl).parent d hd).symm.trans ((hu'.united name u' hl').parent d hd)
  · obtain ⟨st₁, hst₁, hl₁⟩ := mergeClasses_definitionsOf hk name rfl hst
    obtain ⟨st₁', hst₁', hl₁'⟩ := mergeClasses_definitionsOf hk name rfl hst'
    by_cases hs : Shared k groups name
    · exact (h.allOneMeaning hs).find_eq hk (hp.flatten.filter _) hst₁ hst₁' (hl₁.trans hl)
        (hl₁'.trans hl')
    · rw [definitionsOf_perm hp hs] at hst₁
      cases hst₁.symm.trans hst₁'
      cases (hl₁.trans hl).symm.trans (hl₁'.trans hl')
      exact fun _ => rfl
  · obtain ⟨d, hd, -, hrest⟩ := (fromFirst_empty.mergeClasses hk hst).first name u hl
    obtain ⟨d', hd', -, hrest'⟩ := (fromFirst_empty.mergeClasses hk hst').first name u' hl'
    obtain ⟨ds, hds, hd⟩ := firstNamed_flatten hd
    obtain ⟨es, hes, hd'⟩ := firstNamed_flatten hd'
    rw [hrest, hrest']
    exact h.rest ds hds es (hp.mem_iff.mpr hes) name d d' hd hd' (hu.rooted_iff.mpr hr)

/-- A definition of a class that has been met says one thing of each name. -/
theorem oneMeaning_of_later (hk : k.Keeps rest) {first second : List D} {d : D}
    (hst : mergeClasses k (first ++ second) .empty = .ok st) (hmet : k.name d ∈ first.map k.name)
    (hd : d ∈ second) : OneMeaning k (k.members d) := by
  obtain ⟨before, after, rfl⟩ := List.append_of_mem hd
  rw [← List.append_assoc] at hst
  obtain ⟨st₁, hst₁, hrest⟩ := mergeClasses_append.mp hst
  obtain ⟨st₂, hcls, -⟩ := mergeClasses_cons.mp hrest
  obtain ⟨u, -, ⟨hnone, -⟩ | ⟨e, -, -, hmembers, -⟩⟩ := mergeClass_ok hk hcls
  · obtain ⟨e, he, hname⟩ := List.mem_map.mp hmet
    have hempty := (unites_of_mergeClasses hk hst₁).absent _ hnone
    exact absurd hempty (Set.Nonempty.ne_empty ⟨e, List.mem_append_left _ he, hname⟩)
  · exact oneMeaning_of_mergeMembers hmembers

end Classes

/-! ## Counting members -/

section Handles

variable {D M H HM R : Type} [DecidableEq M] [DecidableEq H] {k : ClassKind D M H HM} {rest : D → R}
  {st st' : Merging D}
  {groups groups' : List (List D)}

/-- How many members the class of a name has. -/
def memberCount (k : ClassKind D M H HM) (st : Merging D) (name : String) : Nat :=
  ((st.merged.lookup name).map fun d => (k.members d).length).getD 0

omit [DecidableEq M] in
theorem foldl_assignOne_nextMember (l : List String) (t : HandleTables D H HM) :
    (l.foldl (assignOne k st) t).nextMember = t.nextMember + (l.map (memberCount k st)).sum := by
  induction l generalizing t with
  | nil => rfl
  | cons fqn l ih =>
    rw [List.foldl_cons, ih, List.map_cons, List.sum_cons]
    cases hd : st.merged.lookup fqn with
    | none => simp [memberCount, hd, assignOne]
    | some =>
      rw [assignOne_nextMember hd]
      simp [memberCount, hd, Nat.add_assoc]

omit [DecidableEq H] in
theorem length_mergeMembers {className : String} {members target target' : List M}
    (h : mergeMembers k className members target = .ok target') :
    target'.length ≤ target.length + members.length := by
  induction members generalizing target with
  | nil =>
    cases h
    exact le_rfl
  | cons m members ih =>
    rw [mergeMembers, List.foldlM_cons, bind_eq_ok] at h
    obtain ⟨target₁, hm, hrest⟩ := h
    have hlen := ih hrest
    have hfirst : target₁.length ≤ target.length + 1 := by
      rcases mergeMember_ok hm with ⟨rfl, -⟩ | ⟨rfl, -⟩ <;> simp
    rw [List.length_cons]
    omega

omit [DecidableEq H] in
theorem memberCount_mergeClass (hk : k.Keeps rest) {cls : D} (h : mergeClass k cls st = .ok st')
    (name : String) : memberCount k st' name ≤
      memberCount k st name + if k.name cls = name then (k.members cls).length else 0 := by
  obtain ⟨u, hu, hcase⟩ := mergeClass_ok hk h
  by_cases hname : k.name cls = name
  · subst hname
    simp only [memberCount, hu, HashMap.lookup_insert_eq, if_pos, Option.map_some, Option.getD_some]
    rcases hcase with ⟨hnone, rfl⟩ | ⟨e, he, -, hmembers, -⟩
    · exact Nat.le_add_left ..
    · rw [he]
      exact length_mergeMembers hmembers
  · rw [memberCount, lookup_mergeClass hk h hname, if_neg hname]
    exact le_rfl

omit [DecidableEq H] in
/-- The merged classes have no more members than the definitions. -/
theorem sum_memberCount_le (hk : k.Keeps rest) {definitions : List D} (names : Finset String)
    (h : mergeClasses k definitions st = .ok st') : ∑ name ∈ names, memberCount k st' name ≤
      ∑ name ∈ names, memberCount k st name +
        (definitions.map fun d => (k.members d).length).sum := by
  induction definitions generalizing st with
  | nil =>
    cases h
    exact le_rfl
  | cons cls definitions ih =>
    obtain ⟨st₁, hcls, hrest⟩ := mergeClasses_cons.mp h
    have hstep : ∑ name ∈ names, memberCount k st₁ name ≤
        ∑ name ∈ names, memberCount k st name + (k.members cls).length := by
      refine (Finset.sum_le_sum fun name _ => memberCount_mergeClass hk hcls name).trans ?_
      rw [Finset.sum_add_distrib, Finset.sum_ite_eq]
      split <;> omega
    have hlater := ih hrest
    rw [List.map_cons, List.sum_cons]
    omega

theorem nextMember_lt (hk : k.Keeps rest) {definitions : List D}
    (h : mergeClasses k definitions .empty = .ok st)
    (hroom : (definitions.map fun d => (k.members d).length).sum + 1 < 2 ^ 32) :
    (assignHandles k st).nextMember < 2 ^ 32 := by
  have hle := sum_memberCount_le hk (st.forest k).preorder.toFinset h
  rw [List.sum_toFinset (memberCount k st) Forest.preorder_nodup] at hle
  have hzero : ∑ name ∈ (st.forest k).preorder.toFinset,
      memberCount k (Merging.empty : Merging D) name = 0 :=
    Finset.sum_eq_zero fun name _ => by simp [memberCount, Merging.empty]
  rw [assignHandles_eq, foldl_assignOne_nextMember]
  show 1 + _ < _
  omega

/-- Groups that are free of order are accepted and numbered together. -/
theorem OrderFree.fits_iff (hk : k.Keeps rest) (h : OrderFree k rest groups)
    (hp : groups.Perm groups')
    (hroom : (groups.flatten.map fun d => (k.members d).length).sum + 1 < 2 ^ 32) :
    (∃ st, mergeClasses k groups.flatten .empty = .ok st ∧ Fits k st) ↔
      ∃ st', mergeClasses k groups'.flatten .empty = .ok st' ∧ Fits k st' := by
  have hok := h.isOk_iff hk hp
  have hroom' : (groups'.flatten.map fun d => (k.members d).length).sum + 1 < 2 ^ 32 := by
    rwa [← (hp.flatten.map _).sum_nat]
  have hnext : ∀ st st', mergeClasses k groups.flatten .empty = .ok st →
      mergeClasses k groups'.flatten .empty = .ok st' →
      (assignHandles k st).nextClass = (assignHandles k st').nextClass := by
    intro st st' hst hst'
    rw [assignHandles_eq, assignHandles_eq, foldl_assignOne_nextClass Forest.preorder_subset,
      foldl_assignOne_nextClass Forest.preorder_subset, (h.sameUnion hk hp hst hst').reached.length_eq]
  constructor
  · rintro ⟨st, hst, hfits⟩
    obtain ⟨st', hst'⟩ := hok.mp ⟨st, hst⟩
    exact ⟨st', hst', hnext st st' hst hst' ▸ hfits.1, nextMember_lt hk hst' hroom'⟩
  · rintro ⟨st', hst', hfits⟩
    obtain ⟨st, hst⟩ := hok.mpr ⟨st', hst'⟩
    exact ⟨st, hst, hnext st st' hst hst' ▸ hfits.1, nextMember_lt hk hst hroom⟩

omit [DecidableEq M] in
/-- Two merges of the same union have the same classes, name by name. -/
theorem SameUnion.classNamed {classes classes' : HashMap H D}
    {classTable classTable' : HashMap String H}
    (h : SameUnion k rest st st') (hf : Filed k st classes classTable)
    (hf' : Filed k st' classes' classTable') {same : D → D → Prop}
    (hsame : ∀ d d', k.parent d = k.parent d' →
      (∀ a, (k.members d).find? (fun m => k.memberName m = a) =
        (k.members d').find? fun m => k.memberName m = a) → rest d = rest d' → same d d')
    (name : String) : Option.Rel same (Omt.classNamed classes classTable name)
      (Omt.classNamed classes' classTable' name) := by
  by_cases hreached : name ∈ (st.forest k).preorder
  · have hreached' := h.reached.mem_iff.mp hreached
    obtain ⟨u, hu⟩ :=
      HashMap.mem_iff_lookup.mp ((st.mem_order name).mp (Forest.preorder_subset hreached))
    obtain ⟨u', hu'⟩ :=
      HashMap.mem_iff_lookup.mp ((st'.mem_order name).mp (Forest.preorder_subset hreached'))
    rw [hf.classNamed_eq.mpr ⟨hreached, hu⟩, hf'.classNamed_eq.mpr ⟨hreached', hu'⟩]
    exact .some (hsame u u' (h.parent name u u' hu hu') (h.found name u u' hu hu')
      (h.rest name hreached u u' hu hu'))
  · have hnone : Omt.classNamed classes classTable name = none :=
      Option.eq_none_iff_forall_ne_some.mpr fun d hd => hreached (hf.classNamed_eq.mp hd).1
    have hnone' : Omt.classNamed classes' classTable' name = none :=
      Option.eq_none_iff_forall_ne_some.mpr fun d hd =>
        hreached (h.reached.mem_iff.mpr (hf'.classNamed_eq.mp hd).1)
    rw [hnone, hnone']
    exact .none

end Handles

/-! ## Whole merges -/

/-- Neither the definitions that several modules give of a class say two things
of one name, nor do the modules begin an interaction class that gets a handle
with another order or transportation. -/
structure Orderless (modules : List FomModule) : Prop where
  objects : OrderFree objectClassKind (fun _ => ()) (modules.map (·.objectClasses))
  interactions : OrderFree interactionClassKind InteractionClassDef.delivery
    (modules.map (·.interactionClasses))

/-- The attributes and the parameters of the modules can be numbered in `u32`,
however often they are listed. -/
structure Roomy (modules : List FomModule) : Prop where
  objects : ((objectDefinitions modules).map fun d => d.attributes.length).sum + 1 < 2 ^ 32
  interactions :
    ((interactionDefinitions modules).map fun d => d.parameters.length).sum + 1 < 2 ^ 32

/-- The same parent, and the same definition for every attribute name. -/
def ObjectClassDef.Same (d d' : ObjectClassDef) : Prop :=
  d.parent = d'.parent ∧
    ∀ a, d.attributes.find? (fun x => x.name = a) = d'.attributes.find? fun x => x.name = a

/-- The same parent, order type and transportation, and the same definition for
every parameter name. -/
def InteractionClassDef.Same (d d' : InteractionClassDef) : Prop :=
  d.parent = d'.parent ∧ d.order = d'.order ∧ d.transportation = d'.transportation ∧
    ∀ a, d.parameters.find? (fun x => x.name = a) = d'.parameters.find? fun x => x.name = a

/-- The same classes, whatever their handles. -/
structure MergedFom.SameClasses (fom fom' : MergedFom) : Prop where
  objects : ∀ name, Option.Rel ObjectClassDef.Same (fom.objectClassNamed name)
    (fom'.objectClassNamed name)
  interactions : ∀ name, Option.Rel InteractionClassDef.Same (fom.interactionClassNamed name)
    (fom'.interactionClassNamed name)

/-- The modules merge in both orders or in neither, and into the same classes. -/
def MergeAlike (modules modules' : List FomModule) : Prop :=
  ((∃ fom, mergeModules modules = .ok fom) ↔ ∃ fom', mergeModules modules' = .ok fom') ∧
    ∀ fom fom', mergeModules modules = .ok fom → mergeModules modules' = .ok fom' →
      fom.SameClasses fom'

theorem Orderless.mergeAlike {modules modules' : List FomModule} (h : Orderless modules)
    (hroom : Roomy modules) (hperm : modules.Perm modules') : MergeAlike modules modules' := by
  have hobjects := (hperm.map fun m : FomModule => m.objectClasses)
  have hinteractions := (hperm.map fun m : FomModule => m.interactionClasses)
  constructor
  · rw [mergeModules_isOk, mergeModules_isOk]
    exact and_congr (h.objects.fits_iff objectClassKind_keeps hobjects hroom.objects)
      (h.interactions.fits_iff interactionClassKind_keeps hinteractions hroom.interactions)
  · intro fom fom' hfom hfom'
    obtain ⟨o, i, hm⟩ := mergeModules_ok hfom
    obtain ⟨o', i', hm'⟩ := mergeModules_ok hfom'
    have ho := h.objects.sameUnion objectClassKind_keeps hobjects hm.objects hm'.objects
    have hi := h.interactions.sameUnion interactionClassKind_keeps hinteractions
      hm.interactions hm'.interactions
    constructor
    · exact ho.classNamed hm.objects_filed hm'.objects_filed fun d d' hparent hfound _ =>
        ⟨hparent, hfound⟩
    · exact hi.classNamed hm.interactions_filed hm'.interactions_filed
        fun d d' hparent hfound hrest =>
          ⟨hparent, congrArg Prod.fst hrest, congrArg Prod.snd hrest, hfound⟩

/-! ### What depends on the order -/

section Needed

variable {D M H HM R : Type} [DecidableEq M] {k : ClassKind D M H HM} {rest : D → R}
  {modules : List FomModule} {classes : FomModule → List D}

omit [DecidableEq M] in
/-- A class that several modules define can be defined by another module before
the one at hand. -/
theorem exists_perm_of_shared {m : FomModule} {d : D} (hm : m ∈ modules) (hd : d ∈ classes m)
    (hs : Shared k (modules.map classes) (k.name d)) :
    ∃ m' others, k.name d ∈ (classes m').map k.name ∧ modules.Perm (m' :: m :: others) := by
  have hdefines : k.name d ∈ (classes m).map k.name := List.mem_map_of_mem hd
  obtain ⟨before, after, rfl⟩ := List.append_of_mem hm
  rw [Shared, List.countP_map, (List.perm_middle (a := m)).countP_eq,
    List.countP_cons_of_pos (by simpa using hdefines), Nat.lt_add_left_iff_pos,
    List.countP_pos_iff] at hs
  obtain ⟨m', hm', hmet⟩ := hs
  obtain ⟨before', after', heq⟩ := List.append_of_mem hm'
  refine ⟨m', before' ++ after', of_decide_eq_true hmet, List.perm_middle.trans ?_⟩
  rw [heq]
  exact (List.perm_middle.cons m).trans (.swap ..)

/-- If all orders are accepted, definitions that several modules give of a class
say one thing of each name. -/
theorem oneMeaning_of_orders (hk : k.Keeps rest)
    (h : ∀ modules', modules.Perm modules' →
      ∃ st, mergeClasses k (modules'.flatMap classes) .empty = .ok st) :
    ∀ ds ∈ modules.map classes, ∀ d ∈ ds, Shared k (modules.map classes) (k.name d) →
      OneMeaning k (k.members d) := by
  intro ds hds d hd hs
  obtain ⟨m, hm, rfl⟩ := List.mem_map.mp hds
  obtain ⟨m', others, hmet, hperm⟩ := exists_perm_of_shared hm hd hs
  obtain ⟨st, hst⟩ := h _ hperm
  exact oneMeaning_of_later hk hst hmet (List.mem_append_left _ hd)

end Needed

/-- The module that comes first decides how an interaction class is delivered. -/
theorem first_delivery {m : FomModule} {others : List FomModule} {fom : MergedFom} {name : String}
    {d : InteractionClassDef} (h : mergeModules (m :: others) = .ok fom)
    (hd : firstNamed interactionClassKind m.interactionClasses name = some d)
    (hr : Rooted interactionClassKind {d | d ∈ interactionDefinitions (m :: others)} name) :
    ∃ u, fom.interactionClassNamed name = some u ∧ u.delivery = d.delivery := by
  obtain ⟨o, i, hm⟩ := mergeModules_ok h
  have hreached := (unites_of_mergeClasses interactionClassKind_keeps hm.interactions).rooted_iff.mp hr
  obtain ⟨u, hu⟩ :=
    HashMap.mem_iff_lookup.mp ((i.mem_order name).mp (Forest.preorder_subset hreached))
  obtain ⟨d', hd', -, hrest⟩ :=
    (fromFirst_empty.mergeClasses interactionClassKind_keeps hm.interactions).first name u hu
  refine ⟨u, hm.interactions_filed.classNamed_eq.mpr ⟨hreached, hu⟩, ?_⟩
  rw [List.nil_append, interactionDefinitions, List.flatMap_cons, firstNamed, List.find?_append,
    show m.interactionClasses.find? _ = some d from hd] at hd'
  cases hd'
  exact hrest

section Alike

variable {modules : List FomModule} {fom : MergedFom}
  (h : ∀ modules', modules.Perm modules' → MergeAlike modules modules')
  (hfom : mergeModules modules = .ok fom)

include h hfom

/-- With its module in front, a definition decides what all orders have. -/
theorem delivery_of_front {name : String} {m : FomModule} {d : InteractionClassDef}
    (hm : m ∈ modules) (hd : firstNamed interactionClassKind m.interactionClasses name = some d)
    (hr : Rooted interactionClassKind {d | d ∈ interactionDefinitions modules} name) :
    ∃ v u, fom.interactionClassNamed name = some v ∧ v.Same u ∧ u.delivery = d.delivery := by
  obtain ⟨before, after, rfl⟩ := List.append_of_mem hm
  have hperm : (before ++ m :: after).Perm (m :: (before ++ after)) := List.perm_middle
  obtain ⟨fom', hfom'⟩ := (h _ hperm).1.mp ⟨fom, hfom⟩
  have hset : {d | d ∈ interactionDefinitions (m :: (before ++ after))} =
      {d | d ∈ interactionDefinitions (before ++ m :: after)} :=
    Set.ext fun _ => (hperm.flatMap_right _).mem_iff.symm
  obtain ⟨u, hu, hdel⟩ := first_delivery hfom' hd (hset ▸ hr)
  have hsame := ((h _ hperm).2 fom fom' hfom hfom').interactions name
  rw [hu] at hsame
  cases hv : fom.interactionClassNamed name with
  | none =>
    rw [hv] at hsame
    cases hsame
  | some v =>
    rw [hv] at hsame
    cases hsame with
    | some hsame => exact ⟨v, u, rfl, hsame, hdel⟩

/-- **What all orders need**: if the modules merge, and alike in every order,
they are `Orderless`. -/
theorem orderless_of_mergeAlike : Orderless modules := by
  have hmerges : ∀ modules', modules.Perm modules' → ∃ fom', mergeModules modules' = .ok fom' :=
    fun modules' hperm => (h modules' hperm).1.mp ⟨fom, hfom⟩
  have hobjects := oneMeaning_of_orders objectClassKind_keeps fun modules' hperm =>
    (mergeModules_isOk.mp (hmerges modules' hperm)).1.imp fun _ => And.left
  have hinteractions := oneMeaning_of_orders interactionClassKind_keeps fun modules' hperm =>
    (mergeModules_isOk.mp (hmerges modules' hperm)).2.imp fun _ => And.left
  refine ⟨⟨hobjects, fun _ _ _ _ _ _ _ _ _ _ => rfl⟩, hinteractions, ?_⟩
  intro ds hds es hes name d e hd he hr
  obtain ⟨m, hm, rfl⟩ := List.mem_map.mp hds
  obtain ⟨n, hn, rfl⟩ := List.mem_map.mp hes
  obtain ⟨v, u, hv, hsame, hdel⟩ := delivery_of_front h hfom hm hd hr
  obtain ⟨v', u', hv', hsame', hdel'⟩ := delivery_of_front h hfom hn he hr
  cases hv.symm.trans hv'
  rw [← hdel, ← hdel']
  exact Prod.ext (hsame.2.1.symm.trans hsame'.2.1) (hsame.2.2.1.symm.trans hsame'.2.2.1)

end Alike

/-- A module with one interaction class, of the given order. -/
def orderModule (order : OrderTypeRef) : FomModule :=
  ⟨[], [⟨"I", none, order, "HLAreliable", [], none⟩]⟩

end Hla4.Omt
