/-
# `Hla4.Lib.Forest` — depth-first traversal of a forest given by parents

A forest is a list of distinct nodes with a parent function.  Nothing forbids
missing parents, self-parents or cycles: a node is REACHED when its parents
lead to a node without one (`Path`), and the traversal from the roots visits
the reached nodes only.

    visit fuel x     the subtree of `x`, parent first, children in list order
    preorder         the subtrees of the roots, one after the other

Fuel bounds the depth.  `descend` is the recursion that would go to any depth,
`none` where the fuel gives out: on a cycle it always does
(`descend_eq_none_of_cycle`), and from the roots it does not from some fuel on,
and what was visited is `preorder` (`foldlM_descend`).  No node is visited twice (`preorder_nodup`) and
every node comes after its parent (`preorder_parentsFirst`).  Which nodes are
visited depends on the parents alone, not on the order of the list
(`mem_preorder`).

The second half is the way back up: `ancestors` follows a partial function that
decreases a rank, with the rank as fuel.  Where the nodes are numbered, the way
up in numbers is the path of the node (`ancestors_along`).
-/
import Mathlib.Data.List.Nodup
import Mathlib.Data.Set.Insert
import Mathlib.Data.Fintype.Card
import Mathlib.Logic.Relation

namespace Lib

/-- Distinct nodes in document order, each with its parent. -/
structure Forest (α : Type) where
  nodes : List α
  nodup : nodes.Nodup
  parent : α → Option α

namespace Forest

variable {α : Type} [DecidableEq α] (F : Forest α)

/-- The nodes without a parent. -/
def roots : List α := F.nodes.filter fun x => F.parent x = none

/-- The nodes with parent `x`. -/
def children (x : α) : List α := F.nodes.filter fun c => F.parent c = some x

/-- The subtree of `x` to depth `fuel`, parent first. -/
def visit : Nat → α → List α
  | 0, _ => []
  | fuel + 1, x => x :: (F.children x).flatMap (visit fuel)

/-- The subtrees of the roots. -/
def preorder : List α := F.roots.flatMap (F.visit F.nodes.length)

/-- Do `f` to `x`, then descend into its children one after the other. -/
def descend {σ : Type} (f : σ → α → σ) : Nat → σ → α → Option σ
  | 0, _, _ => none
  | fuel + 1, s, x => (F.children x).foldlM (descend f fuel) (f s x)

/-! ## Paths to a root -/

/-- The list runs from a node through its parents to a root. -/
inductive Path : List α → Prop
  | root {x : α} : F.parent x = none → Path [x]
  | child {c x : α} {l : List α} : F.parent c = some x → Path (x :: l) → Path (c :: x :: l)

variable {F} {fuel : Nat} {x y : α} {l : List α}

omit [DecidableEq α] in
theorem Path.unique {l' : List α} (h : F.Path (x :: l)) (h' : F.Path (x :: l')) :
    l = l' := by
  induction l generalizing x l' with
  | nil =>
    cases h with
    | root hx =>
      cases h' with
      | root => rfl
      | child hx' => rw [hx] at hx'; cases hx'
  | cons p l ih =>
    cases h with
    | child hx hp =>
      cases h' with
      | root hx' => rw [hx'] at hx; cases hx
      | child hx' hp' =>
        rw [hx] at hx'
        cases hx'
        rw [ih hp hp']

omit [DecidableEq α] in
/-- What stands on a path has the rest of the path as its own. -/
theorem Path.of_suffix {l' : List α} (h : F.Path l) (hs : x :: l' <:+ l) :
    F.Path (x :: l') := by
  induction h with
  | root hx =>
    rcases List.suffix_cons_iff.mp hs with he | hn
    · rw [he]; exact .root hx
    · simp at hn
  | child hx hp ih =>
    rcases List.suffix_cons_iff.mp hs with he | hn
    · rw [he]; exact .child hx hp
    · exact ih hn

omit [DecidableEq α] in
/-- A path does not repeat: a node met again would have two paths. -/
theorem Path.nodup (h : F.Path l) : l.Nodup := by
  induction h with
  | root => exact List.nodup_singleton _
  | @child c x l hc hp ih =>
    refine List.nodup_cons.mpr ⟨fun hmem => ?_, ih⟩
    obtain ⟨s, t, hst⟩ := List.append_of_mem hmem
    have hct : F.Path (c :: t) := hp.of_suffix ⟨s, hst.symm⟩
    have hlen := congrArg List.length (hct.unique (.child hc hp))
    have hlen' := congrArg List.length hst
    simp only [List.length_cons, List.length_append] at hlen hlen'
    omega

omit [DecidableEq α] in
theorem Path.length_le (h : F.Path l) (hsub : l ⊆ F.nodes) :
    l.length ≤ F.nodes.length :=
  (List.Nodup.subperm h.nodup hsub).length_le

theorem mem_children {c : α} : c ∈ F.children x ↔ c ∈ F.nodes ∧ F.parent c = some x := by
  simp [children]

omit [DecidableEq α] in
theorem mem_roots : x ∈ F.roots ↔ x ∈ F.nodes ∧ F.parent x = none := by
  simp [roots]

/-! ## The traversal -/

/-- What is visited below `x` has a path that ends in the path of `x`. -/
theorem path_of_mem_visit (hx : F.Path (x :: l)) (hy : y ∈ F.visit fuel x) :
    ∃ l', F.Path (y :: l') ∧ x :: l <:+ y :: l' := by
  induction fuel generalizing x l with
  | zero => cases hy
  | succ fuel ih =>
    rcases List.mem_cons.mp hy with rfl | hy
    · exact ⟨l, hx, List.suffix_rfl⟩
    · obtain ⟨c, hc, hyc⟩ := List.mem_flatMap.mp hy
      obtain ⟨l', hl', hs⟩ := ih (.child (mem_children.mp hc).2 hx) hyc
      exact ⟨l', hl', (List.suffix_cons c _).trans hs⟩

/-- Two nodes at one depth whose subtrees meet are the same node. -/
theorem eq_of_mem_visit {fuel' : Nat} {x' : α} {l' : List α} (hx : F.Path (x :: l))
    (hx' : F.Path (x' :: l')) (hlen : l.length = l'.length) (hy : y ∈ F.visit fuel x)
    (hy' : y ∈ F.visit fuel' x') : x = x' := by
  obtain ⟨k, hk, hs⟩ := path_of_mem_visit hx hy
  obtain ⟨k', hk', hs'⟩ := path_of_mem_visit hx' hy'
  rw [← hk.unique hk'] at hs'
  have hle : (x :: l).length ≤ (x' :: l').length := by simp [hlen]
  have := (List.suffix_of_suffix_length_le hs hs' hle).eq_of_length (by simp [hlen])
  exact (List.cons.inj this).1

theorem visit_nodup (hx : F.Path (x :: l)) :
    (F.visit fuel x).Nodup := by
  induction fuel generalizing x l with
  | zero => exact List.nodup_nil
  | succ fuel ih =>
    have hchild : ∀ c ∈ F.children x, F.Path (c :: x :: l) :=
      fun c hc => .child (mem_children.mp hc).2 hx
    refine List.nodup_cons.mpr ⟨fun hmem => ?_, List.nodup_flatMap.mpr ⟨?_, ?_⟩⟩
    · -- `x` below itself: its path would be longer than itself
      obtain ⟨c, hc, hxc⟩ := List.mem_flatMap.mp hmem
      obtain ⟨l', hl', hs⟩ := path_of_mem_visit (hchild c hc) hxc
      have hle := hs.length_le
      rw [hl'.unique hx] at hle
      simp only [List.length_cons] at hle
      omega
    · exact fun c hc => ih (hchild c hc)
    · refine (F.nodup.filter _).imp_of_mem ?_
      intro c c' hc hc' hne
      refine List.disjoint_left.mpr fun y hy hy' => ?_
      exact hne (eq_of_mem_visit (hchild c hc) (hchild c' hc') rfl hy hy')

/-- **No node is visited twice.** -/
theorem preorder_nodup : F.preorder.Nodup := by
  refine List.nodup_flatMap.mpr ⟨fun r hr => visit_nodup (.root (mem_roots.mp hr).2), ?_⟩
  refine (F.nodup.filter _).imp_of_mem ?_
  intro r r' hr hr' hne
  refine List.disjoint_left.mpr fun y hy hy' => ?_
  exact hne (eq_of_mem_visit (.root (mem_roots.mp hr).2) (.root (mem_roots.mp hr').2) rfl hy hy')

theorem visit_subset (hx : x ∈ F.nodes) : F.visit fuel x ⊆ F.nodes := by
  induction fuel generalizing x with
  | zero => exact List.nil_subset _
  | succ fuel ih =>
    refine List.cons_subset.mpr ⟨hx, fun y hy => ?_⟩
    obtain ⟨c, hc, hyc⟩ := List.mem_flatMap.mp hy
    exact ih (mem_children.mp hc).1 hyc

theorem preorder_subset : F.preorder ⊆ F.nodes := by
  intro y hy
  obtain ⟨r, hr, hyr⟩ := List.mem_flatMap.mp hy
  exact visit_subset (mem_roots.mp hr).1 hyr

/-! ### The recursion -/

section Descend

variable {σ : Type} {f : σ → α → σ} {s : σ} {x : α}

omit [DecidableEq α] in
theorem foldlM_eq_some {g : σ → α → Option σ} {g' : σ → α → σ}
    (h : ∀ x ∈ l, ∀ s, g s x = some (g' s x)) (s : σ) : l.foldlM g s = some (l.foldl g' s) := by
  induction l generalizing s with
  | nil => rfl
  | cons x l ih =>
    rw [List.foldlM_cons, h x List.mem_cons_self, List.foldl_cons]
    exact ih (fun y hy => h y (List.mem_cons_of_mem x hy)) _

/-- From a node with a path the recursion returns, and has done `f` to what
`visit` lists: a deeper path than there are nodes would repeat one. -/
theorem descend_eq_visit (hx : F.Path (x :: l)) (hsub : x :: l ⊆ F.nodes)
    (hfuel : F.nodes.length ≤ l.length + fuel) {fuel' : Nat} (hle : fuel ≤ fuel') (s : σ) :
    F.descend f fuel' s x = some ((F.visit fuel x).foldl f s) := by
  induction fuel generalizing fuel' x l s with
  | zero =>
    have hlen := hx.length_le hsub
    rw [List.length_cons] at hlen
    omega
  | succ fuel ih =>
    obtain ⟨fuel', rfl⟩ := Nat.exists_eq_add_of_lt hle
    rw [descend, visit, List.foldl_cons, List.foldl_flatMap]
    refine foldlM_eq_some (fun c hc s => ?_) (f s x)
    obtain ⟨hcn, hcp⟩ := mem_children.mp hc
    refine ih (.child hcp hx) (List.cons_subset.mpr ⟨hcn, hsub⟩) ?_ (Nat.le_add_right _ _) s
    rw [List.length_cons]
    omega

/-- **From the roots the recursion returns**, and has visited `preorder`. -/
theorem foldlM_descend (f : σ → α → σ) (hfuel : F.nodes.length ≤ fuel) (s : σ) :
    F.roots.foldlM (F.descend f fuel) s = some (F.preorder.foldl f s) := by
  rw [preorder, List.foldl_flatMap]
  refine foldlM_eq_some (fun r hr s => ?_) s
  obtain ⟨hrn, hroot⟩ := mem_roots.mp hr
  exact descend_eq_visit (.root hroot) (by simpa using hrn) (Nat.le_add_left _ _) hfuel s

omit [DecidableEq α] in
theorem exists_of_foldlM {g : σ → α → Option σ} {r : σ} (h : l.foldlM g s = some r) (hx : x ∈ l) :
    ∃ s' r', g s' x = some r' := by
  induction l generalizing s with
  | nil => cases hx
  | cons y l ih =>
    rw [List.foldlM_cons] at h
    obtain ⟨s', hs', hrest⟩ := Option.bind_eq_some_iff.mp h
    rcases List.mem_cons.mp hx with rfl | hx
    · exact ⟨s, s', hs'⟩
    · exact ih hrest hx

/-- Where the recursion returns, no way down is infinite. -/
theorem acc_of_descend {r : σ} (h : F.descend f fuel s x = some r) :
    Acc (fun c p => c ∈ F.children p) x := by
  induction fuel generalizing s x r with
  | zero => cases h
  | succ fuel ih =>
    refine .intro x fun c hc => ?_
    obtain ⟨s', r', hc'⟩ := exists_of_foldlM h hc
    exact ih hc'

/-- On a cycle the recursion does not return. -/
theorem descend_eq_none_of_cycle (hx : Relation.TransGen (fun c p => c ∈ F.children p) x x) :
    F.descend f fuel s x = none := by
  refine Option.eq_none_iff_forall_ne_some.mpr fun r hr => ?_
  have hacc := (acc_of_descend hr).transGen
  induction hacc with
  | intro y _ ih => exact ih y hx hx hr

end Descend

/-! ### The nodes visited -/

theorem visit_mono {fuel' : Nat} (h : fuel ≤ fuel') (x : α) :
    F.visit fuel x ⊆ F.visit fuel' x := by
  induction fuel generalizing fuel' x with
  | zero => exact List.nil_subset _
  | succ fuel ih =>
    obtain ⟨fuel', rfl⟩ := Nat.exists_eq_add_of_le' (Nat.zero_lt_of_lt h)
    refine List.cons_subset_cons x fun y hy => ?_
    obtain ⟨c, hc, hyc⟩ := List.mem_flatMap.mp hy
    exact List.mem_flatMap.mpr ⟨c, hc, ih (Nat.le_of_succ_le_succ h) c hyc⟩

/-- What is visited below a node of a path is visited below the root it leads
to. -/
theorem mem_visit_root (hx : F.Path (x :: l)) (hsub : x :: l ⊆ F.nodes) (hy : y ∈ F.visit fuel x) :
    ∃ r ∈ F.roots, y ∈ F.visit (l.length + fuel) r := by
  induction l generalizing x fuel with
  | nil =>
    cases hx with
    | root hroot =>
      refine ⟨x, mem_roots.mpr ⟨hsub List.mem_cons_self, hroot⟩, ?_⟩
      simpa using hy
  | cons p l ih =>
    cases hx with
    | child hparent hp =>
      obtain ⟨hxn, hsub⟩ := List.cons_subset.mp hsub
      have hbelow : y ∈ F.visit (fuel + 1) p :=
        List.mem_cons_of_mem _ (List.mem_flatMap.mpr ⟨x, mem_children.mpr ⟨hxn, hparent⟩, hy⟩)
      obtain ⟨r, hr, hyr⟩ := ih hp hsub hbelow
      refine ⟨r, hr, ?_⟩
      rwa [List.length_cons, Nat.add_assoc, Nat.add_comm 1]

theorem path_subset_of_mem_visit (hx : F.Path (x :: l)) (hsub : x :: l ⊆ F.nodes)
    (hy : y ∈ F.visit fuel x) :
    ∃ l', F.Path (y :: l') ∧ y :: l' ⊆ F.nodes := by
  induction fuel generalizing x l with
  | zero => cases hy
  | succ fuel ih =>
    rcases List.mem_cons.mp hy with rfl | hy
    · exact ⟨l, hx, hsub⟩
    · obtain ⟨c, hc, hyc⟩ := List.mem_flatMap.mp hy
      obtain ⟨hcn, hcp⟩ := mem_children.mp hc
      exact ih (.child hcp hx) (List.cons_subset.mpr ⟨hcn, hsub⟩) hyc

/-- **The nodes visited** are those whose parents lead to a root within the
list. -/
theorem mem_preorder : y ∈ F.preorder ↔ ∃ l, F.Path (y :: l) ∧ y :: l ⊆ F.nodes := by
  constructor
  · intro hy
    obtain ⟨r, hr, hyr⟩ := List.mem_flatMap.mp hy
    obtain ⟨hrn, hroot⟩ := mem_roots.mp hr
    exact path_subset_of_mem_visit (.root hroot) (by simpa using hrn) hyr
  · rintro ⟨l, hpath, hsub⟩
    have hself : y ∈ F.visit 1 y := List.mem_cons_self
    obtain ⟨r, hr, hyr⟩ := mem_visit_root hpath hsub hself
    -- a path does not repeat, so the number of nodes is fuel enough
    have hlen := hpath.length_le hsub
    rw [List.length_cons] at hlen
    exact List.mem_flatMap.mpr ⟨r, hr, visit_mono hlen r hyr⟩

/-! ### Parents first -/

/-- Every node of the list has no parent, or its parent is in `seen` or stands
before it. -/
def ParentsFirst (F : Forest α) : Set α → List α → Prop
  | _, [] => True
  | seen, x :: l =>
    (∀ p, F.parent x = some p → p ∈ seen) ∧ F.ParentsFirst (insert x seen) l

omit [DecidableEq α] in
theorem ParentsFirst.mono {seen seen' : Set α} (h : F.ParentsFirst seen l) (hs : seen ⊆ seen') :
    F.ParentsFirst seen' l := by
  induction l generalizing seen seen' with
  | nil => trivial
  | cons x l ih => exact ⟨fun p hp => hs (h.1 p hp), ih h.2 (Set.insert_subset_insert hs)⟩

omit [DecidableEq α] in
theorem ParentsFirst.append {seen : Set α} {l' : List α} (h : F.ParentsFirst seen l)
    (h' : F.ParentsFirst seen l') : F.ParentsFirst seen (l ++ l') := by
  induction l generalizing seen with
  | nil => exact h'
  | cons x l ih => exact ⟨h.1, ih h.2 (h'.mono (Set.subset_insert x seen))⟩

omit [DecidableEq α] in
theorem ParentsFirst.flatMap {seen : Set α} {xs : List α} {f : α → List α}
    (h : ∀ x ∈ xs, F.ParentsFirst seen (f x)) : F.ParentsFirst seen (xs.flatMap f) := by
  induction xs with
  | nil => trivial
  | cons x xs ih =>
    rw [List.flatMap_cons]
    exact (h x (List.mem_cons_self ..)).append
      (ih fun y hy => h y (List.mem_cons_of_mem x hy))

theorem visit_parentsFirst {seen : Set α} (hx : ∀ p, F.parent x = some p → p ∈ seen) :
    F.ParentsFirst seen (F.visit fuel x) := by
  induction fuel generalizing x seen with
  | zero => trivial
  | succ fuel ih =>
    refine ⟨hx, ParentsFirst.flatMap fun c hc => ih fun p hp => ?_⟩
    rw [(mem_children.mp hc).2] at hp
    cases hp
    exact Set.mem_insert x seen

/-- **Every node comes after its parent.** -/
theorem preorder_parentsFirst : F.ParentsFirst ∅ F.preorder :=
  ParentsFirst.flatMap fun r hr => visit_parentsFirst fun p hp => by
    rw [(mem_roots.mp hr).2] at hp
    cases hp

end Forest

/-! ## The way back up -/

section Ancestors

variable {α : Type}

/-- Follow `next` for at most `fuel` nodes. -/
def ancestors (next : α → Option α) : Nat → α → List α
  | 0, _ => []
  | fuel + 1, x =>
    x :: match next x with
      | some y => ancestors next fuel y
      | none => []

variable {next : α → Option α}

/-- With more fuel than the rank, the nodes met are exactly those `next` leads
to: the walk is not cut short. -/
theorem mem_ancestors (rank : α → Nat) (hdec : ∀ x y, next x = some y → rank y < rank x)
    {fuel : Nat} {x y : α} (hfuel : rank x < fuel) :
    y ∈ ancestors next fuel x ↔ Relation.ReflTransGen (fun a b => next a = some b) x y := by
  induction fuel generalizing x with
  | zero => omega
  | succ fuel ih =>
    rw [ancestors, List.mem_cons, Relation.ReflTransGen.cases_head_iff]
    refine or_congr eq_comm ?_
    cases hn : next x with
    | none => simp
    | some z =>
      have hz := hdec x z hn
      simp only [Option.some.injEq, exists_eq_left']
      exact ih (by omega)

theorem ancestors_isChain (fuel : Nat) (x : α) :
    (ancestors next fuel x).IsChain fun a b => next a = some b := by
  induction fuel generalizing x with
  | zero => exact .nil
  | succ fuel ih =>
    rw [ancestors]
    cases hn : next x with
    | none => exact .singleton x
    | some y =>
      have hrest := ih y
      cases fuel with
      | zero => exact .singleton x
      | succ => exact .cons_cons hn hrest

/-- The ranks of the nodes met go down, so no node is met twice. -/
theorem ancestors_decreasing (rank : α → Nat) (hdec : ∀ x y, next x = some y → rank y < rank x)
    (fuel : Nat) (x : α) : (ancestors next fuel x).Pairwise fun a b => rank b < rank a := by
  have htrans : Trans (fun a b => rank b < rank a) (fun a b => rank b < rank a)
      fun a b => rank b < rank a := ⟨fun hab hbc => Nat.lt_trans hbc hab⟩
  exact ((ancestors_isChain fuel x).imp hdec).pairwise

/-- The walk ends where `next` does. -/
theorem ancestors_getLast? (rank : α → Nat) (hdec : ∀ x y, next x = some y → rank y < rank x)
    {fuel : Nat} {x : α} (hfuel : rank x < fuel) :
    ∃ r, (ancestors next fuel x).getLast? = some r ∧ next r = none := by
  induction fuel generalizing x with
  | zero => omega
  | succ fuel ih =>
    rw [ancestors]
    cases hn : next x with
    | none => exact ⟨x, rfl, hn⟩
    | some y =>
      have hlt := hdec x y hn
      obtain ⟨r, hr, hend⟩ := ih (x := y) (by omega)
      refine ⟨r, ?_, hend⟩
      rw [List.getLast?_cons, hr]
      rfl

/-- The way up in numbers retraces a path of names: `number` gives every name on
the path a number, and the number after a name's is its parent's. -/
theorem ancestors_along {β : Type} {F : Forest β} {number : β → Option α} (rank : α → Nat)
    (hdec : ∀ x y, next x = some y → rank y < rank x)
    (hnext : ∀ n x, number n = some x → next x = (F.parent n).bind number)
    {n : β} {l : List β} (hpath : F.Path (n :: l)) (hall : ∀ m ∈ l, ∃ y, number m = some y)
    {x : α} (hx : number n = some x) {fuel : Nat} (hfuel : rank x < fuel) :
    (ancestors next fuel x).map some = (n :: l).map number := by
  induction l generalizing n x fuel with
  | nil =>
    cases hpath with
    | root hroot =>
      obtain ⟨fuel, rfl⟩ := Nat.exists_eq_add_of_le' (Nat.zero_lt_of_lt hfuel)
      have hnone : next x = none := by rw [hnext n x hx, hroot]; rfl
      simp [ancestors, hnone, hx]
  | cons p l ih =>
    cases hpath with
    | child hparent hp =>
      obtain ⟨fuel, rfl⟩ := Nat.exists_eq_add_of_le' (Nat.zero_lt_of_lt hfuel)
      obtain ⟨y, hy⟩ := hall p List.mem_cons_self
      have hsome : next x = some y := by rw [hnext n x hx, hparent]; exact hy
      have hlt := hdec x y hsome
      have hrest : (ancestors next fuel y).map some = (p :: l).map number :=
        ih hp (fun m hm => hall m (List.mem_cons_of_mem p hm)) hy (by omega)
      rw [ancestors, hsome, List.map_cons, List.map_cons, hx, hrest]

end Ancestors

end Lib
