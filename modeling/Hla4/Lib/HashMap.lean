/-
# `Hla4.Lib.HashMap` — hash maps and hash sets as association lists

A hash map is a Mathlib `AList`: a list of entries with pairwise distinct
keys.  What `AList` already has (`lookup`, `insert`, `erase`, `keys`) is used
under its own name; this module adds the operations a program built on hash
maps needs besides:

    modify     update the value of one key, if it is present
    mapValues  update every value
    retain     keep the entries a predicate accepts
    values     the values, in entry order

A hash set is a hash map into `Unit`; a `MultiMap` is a hash map of hash sets,
with the two updates such maps get (add to the set of a key, creating it;
remove from the set of a key, dropping it when it is empty).

**Iteration order.**  The order in which a hash map or a hash set is iterated
is unspecified.  `IterOrder` is that freedom as a parameter: any function that
permutes the list it is given.  What is proved for every `IterOrder` holds in
every order; the only facts used about one are `mem_order` and `nodup_order`.
-/
import Mathlib.Data.List.AList

namespace Lib

/-- A finite map with pairwise distinct keys. -/
abbrev HashMap (K V : Type) := AList fun _ : K => V

/-- A finite set: a map into `Unit`. -/
abbrev HashSet (K : Type) := HashMap K Unit

theorem exists_find? {α : Type} {p : α → Bool} {l : List α} {a : α} (ha : a ∈ l) (hp : p a = true) :
    ∃ b, l.find? p = some b ∧ b ∈ l ∧ p b = true := by
  obtain ⟨b, hb⟩ := Option.isSome_iff_exists.mp (List.find?_isSome.mpr ⟨a, ha, hp⟩)
  exact ⟨b, hb, List.mem_of_find?_eq_some hb, List.find?_some hb⟩

namespace HashMap

variable {K V : Type}

/-- The values, in entry order. -/
def values (m : HashMap K V) : List V := m.entries.map (·.2)

/-- Update every value. -/
def mapValues (m : HashMap K V) (f : K → V → V) : HashMap K V where
  entries := m.entries.map (Sigma.map id f)
  nodupKeys := m.nodupKeys.map₂ f m.entries

/-- Keep the entries accepted by `p`. -/
def retain (m : HashMap K V) (p : K → V → Bool) : HashMap K V where
  entries := m.entries.filter fun e => p e.1 e.2
  nodupKeys := m.nodupKeys.sublist List.filter_sublist

variable [DecidableEq K]

/-- Update the value at `k`, if there is one. -/
def modify (m : HashMap K V) (k : K) (f : V → V) : HashMap K V :=
  match m.lookup k with
  | some v => m.insert k (f v)
  | none => m

/-! ## Lookups -/

theorem lookup_insert_eq (m : HashMap K V) (k k' : K) (v : V) :
    (m.insert k v).lookup k' = if k' = k then some v else m.lookup k' := by
  split
  · next h => subst h; exact AList.lookup_insert m
  · next h => exact AList.lookup_insert_ne h

theorem lookup_erase_eq (m : HashMap K V) (k k' : K) :
    (m.erase k).lookup k' = if k' = k then none else m.lookup k' := by
  split
  · next h => subst h; exact AList.lookup_erase k' m
  · next h => exact AList.lookup_erase_ne h

theorem lookup_erase_eq_some {m : HashMap K V} {k k' : K} {v : V} :
    (m.erase k).lookup k' = some v ↔ k' ≠ k ∧ m.lookup k' = some v := by
  rw [lookup_erase_eq]
  split
  · next h => simp [h]
  · next h => simp [h]

theorem lookup_modify (m : HashMap K V) (k k' : K) (f : V → V) :
    (m.modify k f).lookup k' = if k' = k then (m.lookup k).map f else m.lookup k' := by
  unfold modify
  cases hk : m.lookup k with
  | none =>
    by_cases h : k' = k
    · rw [if_pos h, h, hk]; rfl
    · rw [if_neg h]
  | some => simp only [lookup_insert_eq, Option.map_some]

theorem lookup_modify_insert (m : HashMap K V) (k k' : K) (v : V) (f : V → V) :
    (HashMap.modify (m.insert k v) k f).lookup k' = if k' = k then some (f v) else m.lookup k' := by
  rw [lookup_modify, lookup_insert_eq, if_pos rfl, Option.map_some, lookup_insert_eq]
  split <;> rfl

theorem lookup_modify_self (m : HashMap K V) (k : K) (f : V → V) :
    (m.modify k f).lookup k = (m.lookup k).map f := by
  rw [lookup_modify, if_pos rfl]

theorem lookup_modify_ne (m : HashMap K V) {k k' : K} (h : k' ≠ k) (f : V → V) :
    (m.modify k f).lookup k' = m.lookup k' := by
  rw [lookup_modify, if_neg h]

theorem lookup_mapValues (m : HashMap K V) (f : K → V → V) (k : K) :
    (m.mapValues f).lookup k = (m.lookup k).map (f k) :=
  List.dlookup_map₂ k

theorem lookup_retain (m : HashMap K V) (p : K → V → Bool) (k : K) :
    (m.retain p).lookup k = (m.lookup k).filter (p k) := by
  ext v
  have h₁ : v ∈ (m.retain p).lookup k ↔ ⟨k, v⟩ ∈ (m.retain p).entries := AList.mem_lookup_iff
  have h₂ : v ∈ m.lookup k ↔ ⟨k, v⟩ ∈ m.entries := AList.mem_lookup_iff
  simp only [Option.mem_def] at h₁ h₂
  rw [h₁, Option.filter_eq_some_iff, h₂]
  simp only [retain, List.mem_filter]

theorem mem_iff_lookup {m : HashMap K V} {k : K} : k ∈ m ↔ ∃ v, m.lookup k = some v := by
  rw [← AList.lookup_isSome, Option.isSome_iff_exists]

theorem mem_of_lookup {m : HashMap K V} {k : K} {v : V} (h : m.lookup k = some v) : k ∈ m :=
  mem_iff_lookup.mpr ⟨v, h⟩

theorem mem_values {m : HashMap K V} {v : V} : v ∈ m.values ↔ ∃ k, m.lookup k = some v := by
  simp only [values, List.mem_map]
  constructor
  · rintro ⟨⟨k, w⟩, he, rfl⟩
    exact ⟨k, Option.mem_def.mp (AList.mem_lookup_iff.mpr he)⟩
  · rintro ⟨k, hk⟩
    exact ⟨⟨k, v⟩, AList.mem_lookup_iff.mp hk, rfl⟩

theorem lookup_foldl_insert (l : List K) (v : V) (m : HashMap K V) (k : K) :
    (l.foldl (fun m a => AList.insert a v m) m).lookup k =
      if k ∈ l then some v else m.lookup k := by
  induction l generalizing m with
  | nil => simp
  | cons a l ih =>
    rw [List.foldl_cons, ih, lookup_insert_eq]
    by_cases hl : k ∈ l
    · simp [hl]
    · simp [hl]

theorem lookup_foldl_erase (l : List K) (m : HashMap K V) (k : K) :
    (l.foldl (fun m a => m.erase a) m).lookup k = if k ∈ l then none else m.lookup k := by
  induction l generalizing m with
  | nil => simp
  | cons a l ih =>
    rw [List.foldl_cons, ih, lookup_erase_eq]
    by_cases hl : k ∈ l
    · simp [hl]
    · simp [hl]

/-- Every value carries its own key. -/
def KeyedBy (key : V → K) (m : HashMap K V) : Prop := ∀ k v, m.lookup k = some v → key v = k

namespace KeyedBy

variable {key : V → K} {m : HashMap K V}

theorem empty : KeyedBy key (∅ : HashMap K V) := fun _ _ h => by cases h

theorem insert (h : KeyedBy key m) {k : K} {v : V} (hv : key v = k) :
    KeyedBy key (AList.insert k v m) := by
  intro k' v' hk'
  rw [lookup_insert_eq] at hk'
  split at hk'
  · next he =>
      cases hk'
      exact hv.trans he.symm
  · exact h k' v' hk'

theorem erase (h : KeyedBy key m) (k : K) : KeyedBy key (m.erase k) := by
  intro k' v' hk'
  exact h k' v' (lookup_erase_eq_some.mp hk').2

theorem modify (h : KeyedBy key m) {k : K} {f : V → V} (hf : ∀ v, key (f v) = key v) :
    KeyedBy key (m.modify k f) := by
  intro k' v' hk'
  rw [lookup_modify] at hk'
  split at hk'
  · next he =>
      obtain ⟨v, hv, rfl⟩ := Option.map_eq_some_iff.mp hk'
      exact (hf v).trans ((h k v hv).trans he.symm)
  · exact h k' v' hk'

omit [DecidableEq K] in
theorem map_values [DecidableEq K] (h : KeyedBy key m) : m.values.map key = m.keys := by
  rw [values, List.map_map]
  exact List.map_congr_left fun e he => h e.1 e.2 (AList.mem_lookup_iff.mpr he)

end KeyedBy

/-! A map built from the entries of a list: an entry without a value is skipped,
and of two entries for a key the later one counts. -/

section Collect

variable {E : Type}

def put (key : E → K) (val : E → Option V) (m : HashMap K V) (e : E) : HashMap K V :=
  match val e with
  | none => m
  | some v => AList.insert (key e) v m

def collect (key : E → K) (val : E → Option V) (l : List E) (m : HashMap K V) : HashMap K V :=
  l.foldl (put key val) m

variable {key : E → K} {val : E → Option V} {l : List E} {m : HashMap K V} {k : K} {v : V}

theorem lookup_put (e : E) :
    (put key val m e).lookup k = if k = key e then (val e).or (m.lookup k) else m.lookup k := by
  rw [put]
  cases val e with
  | none => exact (ite_self _).symm
  | some => exact lookup_insert_eq ..

theorem lookup_collect_of_not_mem (hk : k ∉ l.map key) :
    (collect key val l m).lookup k = m.lookup k := by
  induction l generalizing m with
  | nil => rfl
  | cons e l ih =>
    rw [List.map_cons, List.mem_cons, not_or] at hk
    exact (ih hk.2).trans ((lookup_put e).trans (if_neg hk.1))

theorem lookup_collect_of_mem (hd : (l.map key).Nodup) {e : E} (he : e ∈ l) (hv : val e = some v) :
    (collect key val l m).lookup (key e) = some v := by
  induction l generalizing m with
  | nil => cases he
  | cons e' l ih =>
    rw [List.map_cons, List.nodup_cons] at hd
    rcases List.mem_cons.mp he with rfl | he
    · refine (lookup_collect_of_not_mem hd.1).trans ?_
      rw [lookup_put, if_pos rfl, hv]
      rfl
    · exact ih hd.2 he

theorem lookup_collect_eq_some (h : (collect key val l m).lookup k = some v) :
    (∃ e ∈ l, key e = k ∧ val e = some v) ∨ m.lookup k = some v := by
  induction l generalizing m with
  | nil => exact .inr h
  | cons e l ih =>
    rcases ih h with ⟨e', he', hke, hv⟩ | hm
    · exact .inl ⟨e', List.mem_cons_of_mem _ he', hke, hv⟩
    · rw [lookup_put] at hm
      split at hm
      · next hk =>
          rcases Option.or_eq_some_iff.mp hm with hv | ⟨_, hm⟩
          · exact .inl ⟨e, List.mem_cons_self, hk.symm, hv⟩
          · exact .inr hm
      · exact .inr hm

theorem mem_collect_of_mem (hk : k ∈ m) : k ∈ collect key val l m := by
  induction l generalizing m with
  | nil => exact hk
  | cons e l ih =>
    refine ih ?_
    rw [put]
    cases val e with
    | none => exact hk
    | some => exact (AList.mem_insert _).mpr (.inr hk)

/-- The key of an entry with a value is present, whatever comes later. -/
theorem mem_collect {e : E} (he : e ∈ l) (hv : val e = some v) : key e ∈ collect key val l m := by
  induction l generalizing m with
  | nil => cases he
  | cons e' l ih =>
    rcases List.mem_cons.mp he with rfl | he
    · show key e ∈ collect key val l (put key val m e)
      refine mem_collect_of_mem (mem_of_lookup (v := v) ?_)
      rw [lookup_put, if_pos rfl, hv]
      rfl
    · exact ih he

end Collect

end HashMap

namespace HashSet

variable {K : Type} [DecidableEq K] {s : HashSet K}

/-- Add one element. -/
def insert (s : HashSet K) (a : K) : HashSet K := AList.insert a () s

/-- Add every element of a list. -/
def extend (s : HashSet K) (l : List K) : HashSet K := l.foldl insert s

/-- The set of a list's elements. -/
def ofList (l : List K) : HashSet K := extend ∅ l

/-- Remove every element of a list. -/
def removeAll (s : HashSet K) (l : List K) : HashSet K := l.foldl (fun s a => s.erase a) s

/-- Keep the elements accepted by `p`. -/
def filter (s : HashSet K) (p : K → Bool) : HashSet K := HashMap.retain s fun k _ => p k

@[simp] theorem mem_insert {a b : K} : b ∈ s.insert a ↔ b = a ∨ b ∈ s :=
  AList.mem_insert s

@[simp] theorem mem_extend {l : List K} {a : K} :
    a ∈ s.extend l ↔ a ∈ s ∨ a ∈ l := by
  unfold extend
  induction l generalizing s with
  | nil => simp
  | cons b l ih =>
    rw [List.foldl_cons, ih, mem_insert, List.mem_cons]
    tauto

@[simp] theorem mem_ofList {l : List K} {a : K} : a ∈ ofList l ↔ a ∈ l := by
  simp [ofList]

@[simp] theorem mem_removeAll {l : List K} {a : K} :
    a ∈ s.removeAll l ↔ a ∈ s ∧ a ∉ l := by
  unfold removeAll
  induction l generalizing s with
  | nil => simp
  | cons b l ih =>
    rw [List.foldl_cons, ih, AList.mem_erase, List.mem_cons]
    tauto

@[simp] theorem mem_filter {p : K → Bool} {a : K} :
    a ∈ s.filter p ↔ a ∈ s ∧ p a = true := by
  unfold filter
  rw [HashMap.mem_iff_lookup, HashMap.mem_iff_lookup, HashMap.lookup_retain]
  simp only [Option.filter_eq_some_iff]
  constructor
  · rintro ⟨v, h, hp⟩
    exact ⟨⟨v, h⟩, hp⟩
  · rintro ⟨⟨v, h⟩, hp⟩
    exact ⟨v, h, hp⟩

omit [DecidableEq K] in
theorem keys_eq_nil_iff : s.keys = [] ↔ ∀ a, a ∉ s := by
  simp only [List.eq_nil_iff_forall_not_mem, AList.mem_keys]

omit [DecidableEq K] in
/-- For a subset, equal sizes mean equal sets. -/
theorem keys_length_eq_iff {t : HashSet K} (h : ∀ a ∈ s, a ∈ t) :
    s.keys.length = t.keys.length ↔ ∀ a ∈ t, a ∈ s := by
  have hsub : s.keys ⊆ t.keys := fun a ha => AList.mem_keys.mp (h a (AList.mem_keys.mpr ha))
  have hperm := List.subperm_of_subset s.keys_nodup hsub
  constructor
  · intro hlen a ha
    have hall := hperm.perm_of_length_le (Nat.le_of_eq hlen.symm)
    exact AList.mem_keys.mpr (hall.symm.subset (AList.mem_keys.mp ha))
  · intro hall
    have hsup : t.keys ⊆ s.keys := fun a ha => AList.mem_keys.mp (hall a (AList.mem_keys.mpr ha))
    exact Nat.le_antisymm hperm.length_le (List.subperm_of_subset t.keys_nodup hsup).length_le

end HashSet

/-! ## Maps of sets -/

/-- A set of values for each key. -/
abbrev MultiMap (K V : Type) := HashMap K (HashSet V)

namespace MultiMap

variable {K V : Type} [DecidableEq K] [DecidableEq V] {m : MultiMap K V} {k : K} {v : V}
  {vs : List V}

omit [DecidableEq V] in
/-- The set of a key, empty when the key is absent. -/
def get (m : MultiMap K V) (k : K) : HashSet V := (m.lookup k).getD ∅

/-- Add values to the set of a key, creating it. -/
def add (m : MultiMap K V) (k : K) (vs : List V) : MultiMap K V :=
  AList.insert k ((m.get k).extend vs) m

/-- Remove values from the set of a key; an emptied set is dropped. -/
def remove (m : MultiMap K V) (k : K) (vs : List V) : MultiMap K V :=
  match m.lookup k with
  | none => m
  | some s => if (s.removeAll vs).keys = [] then m.erase k else AList.insert k (s.removeAll vs) m

@[simp] theorem mem_get_add {k' : K} :
    v ∈ (m.add k vs).get k' ↔ (k' = k ∧ v ∈ vs) ∨ v ∈ m.get k' := by
  unfold add
  rw [get, HashMap.lookup_insert_eq]
  by_cases h : k' = k
  · subst h
    rw [if_pos rfl, Option.getD_some, HashSet.mem_extend]
    tauto
  · rw [if_neg h]
    simp only [h, false_and, false_or]
    rfl

@[simp] theorem mem_get_remove {k' : K} :
    v ∈ (m.remove k vs).get k' ↔ v ∈ m.get k' ∧ ¬ (k' = k ∧ v ∈ vs) := by
  by_cases h : k' = k
  · subst h
    cases hk : m.lookup k' with
    | none => simp [remove, get, hk]
    | some s =>
      by_cases hempty : (s.removeAll vs).keys = []
      · have hnone := HashSet.keys_eq_nil_iff.mp hempty v
        rw [HashSet.mem_removeAll] at hnone
        simp only [remove, get, hk, hempty, if_true, HashMap.lookup_erase_eq, Option.getD_none,
          Option.getD_some, true_and]
        exact ⟨fun hv => absurd hv (AList.notMem_empty v), fun hv => absurd hv hnone⟩
      · simp [remove, get, hk, hempty]
  · have hlookup : (m.remove k vs).lookup k' = m.lookup k' := by
      unfold remove
      cases hk : m.lookup k with
      | none => rfl
      | some =>
        dsimp only
        split
        · rw [HashMap.lookup_erase_eq, if_neg h]
        · rw [HashMap.lookup_insert_eq, if_neg h]
    simp only [get, hlookup, h, false_and, not_false_eq_true, and_true]

omit [DecidableEq V] in
theorem mem_of_mem_get (hv : v ∈ m.get k) : k ∈ m := by
  rw [HashMap.mem_iff_lookup]
  cases hk : m.lookup k with
  | none =>
    rw [get, hk] at hv
    exact absurd hv (AList.notMem_empty v)
  | some s => exact ⟨s, rfl⟩

/-- No key has an empty set. -/
def NoEmpty (m : MultiMap K V) : Prop := ∀ k s, m.lookup k = some s → ∃ v, v ∈ s

omit [DecidableEq V] in
theorem NoEmpty.mem_iff (h : m.NoEmpty) :
    k ∈ m ↔ ∃ v, v ∈ m.get k := by
  constructor
  · intro hk
    obtain ⟨s, hs⟩ := HashMap.mem_iff_lookup.mp hk
    obtain ⟨v, hv⟩ := h k s hs
    exact ⟨v, by rw [get, hs]; exact hv⟩
  · rintro ⟨v, hv⟩
    exact mem_of_mem_get hv

theorem NoEmpty.add (h : m.NoEmpty) (hvs : vs ≠ []) :
    (m.add k vs).NoEmpty := by
  intro k' s hs
  rw [MultiMap.add, HashMap.lookup_insert_eq] at hs
  split at hs
  · obtain ⟨v, hv⟩ := List.exists_mem_of_ne_nil vs hvs
    cases hs
    exact ⟨v, HashSet.mem_extend.mpr (.inr hv)⟩
  · exact h k' s hs

theorem NoEmpty.remove (h : m.NoEmpty) :
    (m.remove k vs).NoEmpty := by
  intro k' s hs
  unfold MultiMap.remove at hs
  cases hk : m.lookup k with
  | none => rw [hk] at hs; exact h k' s hs
  | some =>
    simp only [hk] at hs
    split at hs
    · rw [HashMap.lookup_erase_eq] at hs
      split at hs
      · cases hs
      · exact h k' s hs
    · next hne =>
        rw [HashMap.lookup_insert_eq] at hs
        split at hs
        · cases hs
          obtain ⟨v, hv⟩ := List.exists_mem_of_ne_nil _ hne
          exact ⟨v, AList.mem_keys.mpr hv⟩
        · exact h k' s hs

omit [DecidableEq V] in
theorem NoEmpty.retain (h : m.NoEmpty) {p : K → HashSet V → Bool} :
    NoEmpty (HashMap.retain m p) := by
  intro k s hs
  rw [HashMap.lookup_retain, Option.filter_eq_some_iff] at hs
  exact h k s hs.1

end MultiMap

/-! ## Iteration order -/

/-- An order of iteration: any way of permuting the listed keys. -/
structure IterOrder (α : Type) where
  order : List α → List α
  perm : ∀ l, (order l).Perm l

namespace IterOrder

variable {α : Type} (o : IterOrder α)

@[simp] theorem mem_order {l : List α} {a : α} : a ∈ o.order l ↔ a ∈ l :=
  (o.perm l).mem_iff

theorem nodup_order {l : List α} (h : l.Nodup) : (o.order l).Nodup :=
  (o.perm l).nodup_iff.mpr h

/-- Entry order. -/
def stored : IterOrder α := ⟨id, fun l => List.Perm.refl l⟩

end IterOrder

theorem filterMap_keys_sublist {α β κ : Type} (key : α → κ) (key' : β → κ) {f : α → Option β}
    (h : ∀ a b, f a = some b → key' b = key a) (l : List α) :
    ((l.filterMap f).map key').Sublist (l.map key) := by
  induction l with
  | nil => exact List.Sublist.refl _
  | cons a l ih =>
    rw [List.filterMap_cons, List.map_cons]
    cases hf : f a with
    | none => exact ih.cons (key a)
    | some b =>
      rw [List.map_cons, h a b hf]
      exact ih.cons_cons (key a)

end Lib
