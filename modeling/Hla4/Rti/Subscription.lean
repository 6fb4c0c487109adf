/-
# `Hla4.Rti.Subscription` — the subscription matrix and its reverse index

`SubscriptionMatrix` records who subscribes to which attribute and to which
interaction class.  Beside the primary map `byAttribute` it keeps, for each
object class, the number of attributes every federate subscribes to, so that
"who cares about this class" need not scan the matrix.

    Subscribes m f c a     the primary map: `f` is in the set of `(c, a)`
    count m c f            the index: the counter of `f` under `c`
    Indexed m              the index counts the primary map, and holds nothing else

Each operation is described once by what it does to `Subscribes` and to
`count`; `Indexed` is kept by every operation (`Indexed.apply`) and so holds
after every sequence of them.  The counters are `u32`; a class with fewer than
2³² subscribed attributes never wraps one.
-/
import Hla4.Core
import Hla4.Lib.HashMap
import Mathlib.Data.Set.Card

namespace Hla4

open Lib

structure SubscriptionMatrix where
  byAttribute : MultiMap (ObjectClassHandle × AttributeHandle) FederateHandle
  byInteraction : MultiMap InteractionClassHandle FederateHandle
  classSubscribers : HashMap ObjectClassHandle (HashMap FederateHandle UInt32)

namespace SubscriptionMatrix

/-- `SubscriptionMatrix::default`. -/
def empty : SubscriptionMatrix := ⟨∅, ∅, ∅⟩

variable (m : SubscriptionMatrix)

/-- The primary map: `f` is subscribed to attribute `a` of class `c`. -/
def Subscribes (f : FederateHandle) (c : ObjectClassHandle) (a : AttributeHandle) : Prop :=
  f ∈ m.byAttribute.get (c, a)

instance (f : FederateHandle) (c : ObjectClassHandle) (a : AttributeHandle) :
    Decidable (m.Subscribes f c a) := inferInstanceAs (Decidable (_ ∈ _))

/-- Subscribe a federate to an attribute.  The flag says that this was the
federate's first attribute of the class. -/
def subscribeAttribute (cls : ObjectClassHandle) (attr : AttributeHandle)
    (federate : FederateHandle) : SubscriptionMatrix × Bool :=
  if m.Subscribes federate cls attr then (m, false)
  else
    let classMap := (m.classSubscribers.lookup cls).getD ∅
    let count := (classMap.lookup federate).getD 0 + 1
    ({ m with
        byAttribute := m.byAttribute.add (cls, attr) [federate]
        classSubscribers := m.classSubscribers.insert cls (classMap.insert federate count) },
      count == 1)

/-- Count one attribute less; a counter at zero and an empty class go.  The
flag says that the counter went. -/
def decrement (cls : ObjectClassHandle) (federate : FederateHandle) :
    HashMap ObjectClassHandle (HashMap FederateHandle UInt32) × Bool :=
  match m.classSubscribers.lookup cls with
  | none => (m.classSubscribers, false)
  | some classMap =>
    match classMap.lookup federate with
    | none => (m.classSubscribers, false)
    | some count =>
      if count - 1 = 0 then
        if (classMap.erase federate).keys = [] then (m.classSubscribers.erase cls, true)
        else (m.classSubscribers.insert cls (classMap.erase federate), true)
      else
        (m.classSubscribers.insert cls (classMap.insert federate (count - 1)), false)

/-- Unsubscribe a federate from an attribute.  The flag says that this was the
federate's last attribute of the class. -/
def unsubscribeAttribute (cls : ObjectClassHandle) (attr : AttributeHandle)
    (federate : FederateHandle) : SubscriptionMatrix × Bool :=
  let byAttribute := m.byAttribute.remove (cls, attr) [federate]
  if m.Subscribes federate cls attr then
    let (classSubscribers, last) := m.decrement cls federate
    ({ m with byAttribute, classSubscribers }, last)
  else ({ m with byAttribute }, false)

/-- Remove every attribute subscription of a class. -/
def removeClass (cls : ObjectClassHandle) : SubscriptionMatrix :=
  { m with
    byAttribute := HashMap.retain m.byAttribute fun k _ => decide (k.1 ≠ cls)
    classSubscribers := m.classSubscribers.erase cls }

def classHasSubscribers (cls : ObjectClassHandle) : Bool := decide (cls ∈ m.classSubscribers)

def subscribersOfClass (cls : ObjectClassHandle) : List FederateHandle :=
  match m.classSubscribers.lookup cls with
  | some classMap => classMap.keys
  | none => []

/-! ## What the operations do -/

/-- The index: the counter of `f` under `c`. -/
def count (c : ObjectClassHandle) (f : FederateHandle) : Option UInt32 :=
  (m.classSubscribers.lookup c).bind (·.lookup f)

variable {m} {c c' : ObjectClassHandle} {a a' : AttributeHandle} {f f' : FederateHandle}

theorem subscribes_subscribeAttribute :
    (m.subscribeAttribute c a f).1.Subscribes f' c' a' ↔
      (f' = f ∧ c' = c ∧ a' = a) ∨ m.Subscribes f' c' a' := by
  unfold subscribeAttribute
  split
  · next h =>
      refine ⟨.inr, ?_⟩
      rintro (⟨rfl, rfl, rfl⟩ | h')
      · exact h
      · exact h'
  · simp only [Subscribes, MultiMap.mem_get_add, Prod.mk.injEq, List.mem_singleton]
    tauto

theorem subscribes_unsubscribeAttribute :
    (m.unsubscribeAttribute c a f).1.Subscribes f' c' a' ↔
      m.Subscribes f' c' a' ∧ ¬ (f' = f ∧ c' = c ∧ a' = a) := by
  have hby : (m.unsubscribeAttribute c a f).1.byAttribute =
      m.byAttribute.remove (c, a) [f] := by
    unfold unsubscribeAttribute
    split <;> rfl
  rw [Subscribes, hby, MultiMap.mem_get_remove]
  simp only [Subscribes, Prod.mk.injEq, List.mem_singleton]
  tauto

theorem subscribes_removeClass :
    (m.removeClass c).Subscribes f' c' a' ↔ c' ≠ c ∧ m.Subscribes f' c' a' := by
  simp only [Subscribes, removeClass, MultiMap.get, HashMap.lookup_retain]
  by_cases h : c' = c
  · cases m.byAttribute.lookup (c', a') <;> simp [h, Option.filter]
  · cases m.byAttribute.lookup (c', a') <;> simp [h, Option.filter]

theorem count_subscribeAttribute (hnew : ¬ m.Subscribes f c a) :
    (m.subscribeAttribute c a f).1.count c' f' =
      if c' = c ∧ f' = f then some ((m.count c f).getD 0 + 1) else m.count c' f' := by
  rw [subscribeAttribute, if_neg hnew]
  simp only [count, HashMap.lookup_insert_eq]
  by_cases hc : c' = c
  · subst hc
    simp only [if_true, Option.bind_some, HashMap.lookup_insert_eq, true_and]
    cases m.classSubscribers.lookup c' <;> simp
  · simp [hc]

theorem lookup_decrement {n : UInt32} (hn : m.count c f = some n) :
    ((m.decrement c f).1.lookup c').bind (·.lookup f') =
      if c' = c ∧ f' = f then (if n - 1 = 0 then none else some (n - 1)) else m.count c' f' := by
  obtain ⟨cm, hcm, hf⟩ := Option.bind_eq_some_iff.mp hn
  simp only [decrement, hcm, hf]
  by_cases hc : c' = c
  · subst hc
    by_cases hz : n - 1 = 0
    · simp only [hz, if_true, true_and]
      split
      · next hempty =>
          -- the class goes: nobody else was counted under it
          have hnone : (cm.erase f).lookup f' = none :=
            AList.lookup_eq_none.mpr fun hmem => by
              rw [AList.mem_keys, hempty] at hmem
              exact List.not_mem_nil hmem
          rw [HashMap.lookup_erase_eq] at hnone
          simp only [HashMap.lookup_erase_eq, if_true, Option.bind_none, count, hcm,
            Option.bind_some]
          split
          · rfl
          · next hff => rw [if_neg hff] at hnone; exact hnone.symm
      · simp only [HashMap.lookup_insert_eq, if_true, Option.bind_some, HashMap.lookup_erase_eq,
          count, hcm]
    · simp only [hz, if_false, HashMap.lookup_insert_eq, if_true, Option.bind_some, true_and,
        count, hcm]
  · simp only [hc, false_and, if_false, count]
    split
    · split
      · rw [HashMap.lookup_erase_eq, if_neg hc]
      · rw [HashMap.lookup_insert_eq, if_neg hc]
    · rw [HashMap.lookup_insert_eq, if_neg hc]

theorem count_unsubscribeAttribute (hold : m.Subscribes f c a) {n : UInt32}
    (hn : m.count c f = some n) :
    (m.unsubscribeAttribute c a f).1.count c' f' =
      if c' = c ∧ f' = f then (if n - 1 = 0 then none else some (n - 1)) else m.count c' f' := by
  rw [unsubscribeAttribute, if_pos hold]
  exact lookup_decrement hn

theorem count_unsubscribeAttribute_of_not (hnot : ¬ m.Subscribes f c a) :
    (m.unsubscribeAttribute c a f).1.count c' f' = m.count c' f' := by
  rw [unsubscribeAttribute, if_neg hnot]
  rfl

theorem count_removeClass :
    (m.removeClass c).count c' f' = if c' = c then none else m.count c' f' := by
  simp only [count, removeClass, HashMap.lookup_erase_eq]
  split <;> rfl

/-! ## The index counts the primary map -/

instance : Finite AttributeHandle :=
  Finite.of_injective (fun a => a.raw.toFin) fun a b h => by
    cases a; cases b
    simpa [UInt32.toFin_inj] using h

/-- The attributes of `c` that `f` subscribes to. -/
def attributesOf (m : SubscriptionMatrix) (c : ObjectClassHandle) (f : FederateHandle) :
    Set AttributeHandle := {a | m.Subscribes f c a}

/-- The index holds the counts of the primary map, no zero count, and neither
map holds an empty container. -/
structure Indexed (m : SubscriptionMatrix) : Prop where
  count_eq : ∀ c f, ((m.count c f).map UInt32.toNat).getD 0 = (m.attributesOf c f).ncard
  count_ne_zero : ∀ c f n, m.count c f = some n → n ≠ 0
  no_empty_set : m.byAttribute.NoEmpty
  no_empty_class : ∀ c classMap, m.classSubscribers.lookup c = some classMap → ∃ f, f ∈ classMap

namespace Indexed

theorem empty : Indexed .empty := by
  refine ⟨fun c f => ?_, ?_, ?_, ?_⟩
  · have hnone : SubscriptionMatrix.empty.attributesOf c f = ∅ :=
      Set.eq_empty_of_forall_notMem fun a ha => AList.notMem_empty f ha
    rw [hnone, Set.ncard_empty]
    rfl
  · intro c f n hn
    cases hn
  · intro k s hs
    cases hs
  · intro c cm hcm
    cases hcm

/-- A subscribed federate is counted, and its count is not zero. -/
theorem count_pos (h : Indexed m) (hs : m.Subscribes f c a) :
    ∃ n, m.count c f = some n ∧ n.toNat = (m.attributesOf c f).ncard ∧ 0 < n.toNat := by
  have hpos : 0 < (m.attributesOf c f).ncard := (Set.ncard_pos (Set.toFinite _)).mpr ⟨a, hs⟩
  have heq := h.count_eq c f
  cases hn : m.count c f with
  | none =>
    rw [hn] at heq
    simp only [Option.map_none, Option.getD_none] at heq
    omega
  | some n =>
    rw [hn] at heq
    simp only [Option.map_some, Option.getD_some] at heq
    exact ⟨n, rfl, heq, by omega⟩

/-- Nobody is counted without a subscription. -/
theorem count_eq_none (h : Indexed m) : m.count c f = none ↔ ∀ a, ¬ m.Subscribes f c a := by
  constructor
  · intro hn a hs
    obtain ⟨n, hn', _⟩ := h.count_pos hs
    rw [hn] at hn'
    cases hn'
  · intro hno
    cases hn : m.count c f with
    | none => rfl
    | some n =>
      have heq := h.count_eq c f
      have hset : m.attributesOf c f = ∅ := Set.eq_empty_of_forall_notMem hno
      rw [hn, hset, Set.ncard_empty] at heq
      exact absurd (UInt32.toNat_inj.mp (by simpa using heq)) (h.count_ne_zero c f n hn)

theorem subscribeAttribute (h : Indexed m)
    (hfew : ((m.subscribeAttribute c a f).1.attributesOf c f).ncard < 2 ^ 32) :
    Indexed (m.subscribeAttribute c a f).1 := by
  by_cases hs : m.Subscribes f c a
  · rw [SubscriptionMatrix.subscribeAttribute, if_pos hs]
    exact h
  · have hset : (m.subscribeAttribute c a f).1.attributesOf c f = insert a (m.attributesOf c f) := by
      ext a'
      simp [attributesOf, subscribes_subscribeAttribute]
    have hcard : (insert a (m.attributesOf c f)).ncard = (m.attributesOf c f).ncard + 1 :=
      Set.ncard_insert_of_notMem hs (Set.toFinite _)
    rw [hset, hcard] at hfew
    have hold : ((m.count c f).getD 0).toNat = (m.attributesOf c f).ncard := by
      rw [← h.count_eq c f]
      cases m.count c f <;> rfl
    have hnext : ((m.count c f).getD 0 + 1).toNat = (m.attributesOf c f).ncard + 1 := by
      rw [UInt32.toNat_add, hold]
      exact Nat.mod_eq_of_lt hfew
    refine ⟨?_, ?_, ?_, ?_⟩
    · intro c' f'
      rw [count_subscribeAttribute hs]
      split
      · next he =>
          obtain ⟨rfl, rfl⟩ := he
          rw [hset, hcard]
          exact hnext
      · next he =>
          rw [h.count_eq c' f']
          congr 1
          ext a'
          simp only [attributesOf, Set.mem_ofPred_eq, subscribes_subscribeAttribute]
          tauto
    · intro c' f' n hn
      rw [count_subscribeAttribute hs] at hn
      split at hn
      · cases hn
        intro hz
        rw [hz] at hnext
        exact absurd hnext (by simp)
      · exact h.count_ne_zero c' f' n hn
    · rw [SubscriptionMatrix.subscribeAttribute, if_neg hs]
      exact h.no_empty_set.add (List.cons_ne_nil _ _)
    · intro c' cm hcm
      rw [SubscriptionMatrix.subscribeAttribute, if_neg hs] at hcm
      simp only [HashMap.lookup_insert_eq] at hcm
      split at hcm
      · cases hcm
        exact ⟨f, (AList.mem_insert _).mpr (.inl rfl)⟩
      · exact h.no_empty_class c' cm hcm

theorem decrement_nonempty (h : Indexed m) {classMap : HashMap FederateHandle UInt32}
    (hcm : (m.decrement c f).1.lookup c' = some classMap) : ∃ g, g ∈ classMap := by
  unfold SubscriptionMatrix.decrement at hcm
  split at hcm
  · exact h.no_empty_class c' classMap hcm
  · split at hcm
    · exact h.no_empty_class c' classMap hcm
    · split at hcm
      · split at hcm
        · exact h.no_empty_class c' classMap (HashMap.lookup_erase_eq_some.mp hcm).2
        · next hne =>
            rw [HashMap.lookup_insert_eq] at hcm
            split at hcm
            · cases hcm
              obtain ⟨g, hg⟩ := List.exists_mem_of_ne_nil _ hne
              exact ⟨g, AList.mem_keys.mpr hg⟩
            · exact h.no_empty_class c' classMap hcm
      · rw [HashMap.lookup_insert_eq] at hcm
        split at hcm
        · cases hcm
          exact ⟨f, (AList.mem_insert _).mpr (.inl rfl)⟩
        · exact h.no_empty_class c' classMap hcm

theorem unsubscribeAttribute (h : Indexed m) : Indexed (m.unsubscribeAttribute c a f).1 := by
  have hother : ∀ c' f', ¬ (c' = c ∧ f' = f) →
      (m.unsubscribeAttribute c a f).1.attributesOf c' f' = m.attributesOf c' f' := by
    intro c' f' hne
    ext a'
    simp only [attributesOf, Set.mem_ofPred_eq, subscribes_unsubscribeAttribute]
    tauto
  by_cases hs : m.Subscribes f c a
  · obtain ⟨n, hn, hcard, hpos⟩ := h.count_pos hs
    have hset : (m.unsubscribeAttribute c a f).1.attributesOf c f = m.attributesOf c f \ {a} := by
      ext a'
      simp [attributesOf, subscribes_unsubscribeAttribute]
    have hcard' : (m.attributesOf c f \ {a}).ncard = n.toNat - 1 := by
      rw [hcard]
      exact Set.ncard_sdiff_singleton_of_mem hs
    have hone : (1 : UInt32) ≤ n := UInt32.le_iff_toNat_le.mpr hpos
    have hsub : (n - 1).toNat = n.toNat - 1 := UInt32.toNat_sub_of_le n 1 hone
    refine ⟨?_, ?_, ?_, ?_⟩
    · intro c' f'
      rw [count_unsubscribeAttribute hs hn]
      split
      · next he =>
          obtain ⟨rfl, rfl⟩ := he
          rw [hset, hcard', ← hsub]
          split
          · next hz => rw [hz]; rfl
          · rfl
      · next he => rw [h.count_eq c' f', hother c' f' he]
    · intro c' f' k hk
      rw [count_unsubscribeAttribute hs hn] at hk
      split at hk
      · split at hk
        · cases hk
        · next hz => cases hk; exact hz
      · exact h.count_ne_zero c' f' k hk
    · rw [SubscriptionMatrix.unsubscribeAttribute, if_pos hs]
      exact h.no_empty_set.remove
    · intro c' cm hcm
      rw [SubscriptionMatrix.unsubscribeAttribute, if_pos hs] at hcm
      exact h.decrement_nonempty hcm
  · refine ⟨?_, ?_, ?_, ?_⟩
    · intro c' f'
      rw [count_unsubscribeAttribute_of_not hs, h.count_eq c' f']
      congr 1
      ext a'
      simp only [attributesOf, Set.mem_ofPred_eq, subscribes_unsubscribeAttribute]
      refine ⟨fun ha => ⟨ha, ?_⟩, fun ha => ha.1⟩
      rintro ⟨rfl, rfl, rfl⟩
      exact hs ha
    · intro c' f' k hk
      rw [count_unsubscribeAttribute_of_not hs] at hk
      exact h.count_ne_zero c' f' k hk
    · rw [SubscriptionMatrix.unsubscribeAttribute, if_neg hs]
      exact h.no_empty_set.remove
    · rw [SubscriptionMatrix.unsubscribeAttribute, if_neg hs]
      exact h.no_empty_class

theorem removeClass (h : Indexed m) : Indexed (m.removeClass c) := by
  refine ⟨?_, ?_, h.no_empty_set.retain, ?_⟩
  · intro c' f'
    rw [count_removeClass]
    split
    · next he =>
        have hnone : (m.removeClass c).attributesOf c' f' = ∅ :=
          Set.eq_empty_of_forall_notMem fun a ha => (subscribes_removeClass.mp ha).1 he
        rw [hnone, Set.ncard_empty]
        rfl
    · next he =>
        rw [h.count_eq c' f']
        congr 1
        ext a'
        simp [attributesOf, subscribes_removeClass, he]
  · intro c' f' n hn
    rw [count_removeClass] at hn
    split at hn
    · cases hn
    · exact h.count_ne_zero c' f' n hn
  · intro c' cm hcm
    exact h.no_empty_class c' cm (HashMap.lookup_erase_eq_some.mp hcm).2

end Indexed

/-! ## After any sequence of operations -/

/-- The operations on attribute subscriptions. -/
inductive Op
  | subscribeAttribute (c : ObjectClassHandle) (a : AttributeHandle) (f : FederateHandle)
  | unsubscribeAttribute (c : ObjectClassHandle) (a : AttributeHandle) (f : FederateHandle)
  | removeClass (c : ObjectClassHandle)

def apply (m : SubscriptionMatrix) : Op → SubscriptionMatrix
  | .subscribeAttribute c a f => (m.subscribeAttribute c a f).1
  | .unsubscribeAttribute c a f => (m.unsubscribeAttribute c a f).1
  | .removeClass c => m.removeClass c

/-- The matrix after the operations, from the empty one. -/
def after (ops : List Op) : SubscriptionMatrix := ops.foldl apply empty

/-- The attributes of `c` that the operations subscribe somebody to. -/
def attributesNamed (ops : List Op) (c : ObjectClassHandle) : Set AttributeHandle :=
  {a | ∃ f, Op.subscribeAttribute c a f ∈ ops}

theorem after_concat (ops : List Op) (op : Op) : after (ops ++ [op]) = (after ops).apply op := by
  simp [after]

theorem attributesNamed_concat (ops : List Op) (op : Op) (c : ObjectClassHandle) :
    attributesNamed ops c ⊆ attributesNamed (ops ++ [op]) c := by
  rintro a ⟨f, hf⟩
  exact ⟨f, List.mem_append_left _ hf⟩

/-- Only named attributes are subscribed to. -/
theorem attributesOf_after_subset (ops : List Op) (c : ObjectClassHandle) (f : FederateHandle) :
    (after ops).attributesOf c f ⊆ attributesNamed ops c := by
  induction ops using List.reverseRecOn generalizing f with
  | nil => exact fun a ha => absurd ha (AList.notMem_empty f)
  | append_singleton ops op ih =>
    intro a ha
    rw [after_concat] at ha
    cases op with
    | subscribeAttribute =>
      rcases subscribes_subscribeAttribute.mp ha with ⟨rfl, rfl, rfl⟩ | ha
      · exact ⟨f, by simp⟩
      · exact attributesNamed_concat ops _ c (ih f ha)
    | unsubscribeAttribute =>
      exact attributesNamed_concat ops _ c (ih f (subscribes_unsubscribeAttribute.mp ha).1)
    | removeClass =>
      exact attributesNamed_concat ops _ c (ih f (subscribes_removeClass.mp ha).2)

theorem indexed_after (ops : List Op) (hfew : ∀ c, (attributesNamed ops c).ncard < 2 ^ 32) :
    Indexed (after ops) := by
  induction ops using List.reverseRecOn with
  | nil => exact Indexed.empty
  | append_singleton ops op ih =>
    have hprev : Indexed (after ops) := ih fun c =>
      (Set.ncard_le_ncard (attributesNamed_concat ops op c) (Set.toFinite _)).trans_lt (hfew c)
    rw [after_concat]
    cases op with
    | subscribeAttribute c a f =>
      refine hprev.subscribeAttribute ?_
      have hsub := attributesOf_after_subset (ops ++ [.subscribeAttribute c a f]) c f
      rw [after_concat] at hsub
      exact (Set.ncard_le_ncard hsub (Set.toFinite _)).trans_lt (hfew c)
    | unsubscribeAttribute => exact hprev.unsubscribeAttribute
    | removeClass => exact hprev.removeClass

namespace Indexed

theorem mem_subscribersOfClass (h : Indexed m) :
    f ∈ m.subscribersOfClass c ↔ ∃ a, m.Subscribes f c a := by
  have hcount : f ∈ m.subscribersOfClass c ↔ ∃ n, m.count c f = some n := by
    simp only [subscribersOfClass, count]
    cases m.classSubscribers.lookup c with
    | none => simp
    | some => exact HashMap.mem_iff_lookup
  rw [hcount, ← Option.isSome_iff_exists, ← not_iff_not, Option.not_isSome_iff_eq_none,
    h.count_eq_none, not_exists]

theorem classHasSubscribers_iff (h : Indexed m) :
    m.classHasSubscribers c = true ↔ ∃ a f, m.Subscribes f c a := by
  rw [classHasSubscribers, decide_eq_true_iff]
  constructor
  · intro hc
    obtain ⟨classMap, hcm⟩ := HashMap.mem_iff_lookup.mp hc
    obtain ⟨f, hf⟩ := h.no_empty_class c classMap hcm
    have hmem : f ∈ m.subscribersOfClass c := by
      simp only [subscribersOfClass, hcm]
      exact hf
    obtain ⟨a, ha⟩ := h.mem_subscribersOfClass.mp hmem
    exact ⟨a, f, ha⟩
  · rintro ⟨a, f, hs⟩
    obtain ⟨n, hn, _⟩ := h.count_pos hs
    obtain ⟨classMap, hcm, _⟩ := Option.bind_eq_some_iff.mp hn
    exact HashMap.mem_of_lookup hcm

theorem subscribeAttribute_flag (h : Indexed m) :
    (m.subscribeAttribute c a f).2 = true ↔ ∀ a', ¬ m.Subscribes f c a' := by
  unfold SubscriptionMatrix.subscribeAttribute
  split
  · next hs => exact ⟨fun hf => Bool.noConfusion hf, fun hno => absurd hs (hno a)⟩
  · rw [← h.count_eq_none]
    have hcount : ((m.classSubscribers.lookup c).getD ∅).lookup f = m.count c f := by
      rw [count]
      cases m.classSubscribers.lookup c <;> rfl
    simp only [hcount, beq_iff_eq]
    cases hn : m.count c f with
    | none => simp
    | some n =>
      have hz := h.count_ne_zero c f n hn
      have hne : n + 1 ≠ 1 := fun he => hz (by simpa using he)
      simp [hne]

theorem unsubscribeAttribute_flag (h : Indexed m) :
    (m.unsubscribeAttribute c a f).2 = true ↔
      m.Subscribes f c a ∧ ∀ a', a' ≠ a → ¬ m.Subscribes f c a' := by
  unfold SubscriptionMatrix.unsubscribeAttribute
  by_cases hs : m.Subscribes f c a
  · obtain ⟨n, hn, hcard, hpos⟩ := h.count_pos hs
    have hflag : (m.decrement c f).2 = true ↔ n - 1 = 0 := by
      obtain ⟨classMap, hcm, hf⟩ := Option.bind_eq_some_iff.mp hn
      simp only [decrement, hcm, hf]
      split
      · next hz => split <;> simp [hz]
      · next hz => simp [hz]
    have hone : n - 1 = 0 ↔ (m.attributesOf c f).ncard = 1 := by
      have hsub : (n - 1).toNat = n.toNat - 1 :=
        UInt32.toNat_sub_of_le n 1 (UInt32.le_iff_toNat_le.mpr hpos)
      rw [← hcard, ← UInt32.toNat_inj, hsub, UInt32.toNat_zero]
      omega
    rw [if_pos hs]
    rw [hflag, hone, Set.ncard_eq_one, and_iff_right hs]
    constructor
    · rintro ⟨b, hb⟩ a' hne ha'
      have hb1 : a ∈ ({b} : Set AttributeHandle) := hb ▸ hs
      have hb2 : a' ∈ ({b} : Set AttributeHandle) := hb ▸ ha'
      exact hne ((Set.mem_singleton_iff.mp hb2).trans (Set.mem_singleton_iff.mp hb1).symm)
    · intro hno
      refine ⟨a, Set.eq_singleton_iff_unique_mem.mpr ⟨hs, fun a' ha' => ?_⟩⟩
      by_contra hne
      exact hno a' hne ha'
  · simp [hs]

end Indexed

/-- **The reverse index equals the full scan.**  After any sequence of
operations that names fewer than 2³² attributes of each class, the index holds
exactly the counts of the primary map, and every answer read off it is the
answer of the scan.  The next operation changes the primary map where it says,
and its flag says what that was. -/
theorem index_eq_scan (ops : List Op) (hfew : ∀ c, (attributesNamed ops c).ncard < 2 ^ 32) :
    Indexed (after ops) ∧
    (∀ c, (after ops).classHasSubscribers c = true ↔ ∃ a f, (after ops).Subscribes f c a) ∧
    (∀ c f, f ∈ (after ops).subscribersOfClass c ↔ ∃ a, (after ops).Subscribes f c a) ∧
    (∀ c a f, (after ops).Subscribes f c a → ∃ n, (after ops).count c f = some n ∧ 0 < n.toNat) ∧
    (∀ c a f, ((after ops).subscribeAttribute c a f).2 = true ↔
      ∀ a', ¬ (after ops).Subscribes f c a') ∧
    (∀ c a f, ((after ops).unsubscribeAttribute c a f).2 = true ↔
      (after ops).Subscribes f c a ∧ ∀ a', a' ≠ a → ¬ (after ops).Subscribes f c a') ∧
    (∀ c a f f' c' a', ((after ops).subscribeAttribute c a f).1.Subscribes f' c' a' ↔
      (f' = f ∧ c' = c ∧ a' = a) ∨ (after ops).Subscribes f' c' a') ∧
    (∀ c a f f' c' a', ((after ops).unsubscribeAttribute c a f).1.Subscribes f' c' a' ↔
      (after ops).Subscribes f' c' a' ∧ ¬ (f' = f ∧ c' = c ∧ a' = a)) ∧
    (∀ c f' c' a', ((after ops).removeClass c).Subscribes f' c' a' ↔
      c' ≠ c ∧ (after ops).Subscribes f' c' a') := by
  have h := indexed_after ops hfew
  refine ⟨h, fun c => h.classHasSubscribers_iff, fun c f => h.mem_subscribersOfClass, ?_,
    fun c a f => h.subscribeAttribute_flag, fun c a f => h.unsubscribeAttribute_flag,
    fun c a f f' c' a' => subscribes_subscribeAttribute,
    fun c a f f' c' a' => subscribes_unsubscribeAttribute, fun c f' c' a' => subscribes_removeClass⟩
  intro c a f hs
  obtain ⟨n, hn, _, hpos⟩ := h.count_pos hs
  exact ⟨n, hn, hpos⟩

/-- Two attributes of one class, the first of them twice, and one of another; the
first is unsubscribed, and the other class removed. -/
def subscribedTwice : List Op :=
  [.subscribeAttribute ⟨1⟩ ⟨7⟩ ⟨2⟩, .subscribeAttribute ⟨1⟩ ⟨7⟩ ⟨2⟩, .subscribeAttribute ⟨1⟩ ⟨8⟩ ⟨2⟩,
    .subscribeAttribute ⟨3⟩ ⟨7⟩ ⟨2⟩, .unsubscribeAttribute ⟨1⟩ ⟨7⟩ ⟨2⟩, .removeClass ⟨3⟩]

/-- The federate is counted once, under the attribute that is left, and the next
unsubscription of it is the last. -/
theorem index_eq_scan_subscribedTwice :
    Indexed (after subscribedTwice) ∧
      (after subscribedTwice).count ⟨1⟩ ⟨2⟩ = some 1 ∧
      ⟨2⟩ ∈ (after subscribedTwice).subscribersOfClass ⟨1⟩ ∧
      (after subscribedTwice).classHasSubscribers ⟨3⟩ = false ∧
      ((after subscribedTwice).unsubscribeAttribute ⟨1⟩ ⟨8⟩ ⟨2⟩).2 = true := by
  have hfew : ∀ c, (attributesNamed subscribedTwice c).ncard < 2 ^ 32 := by
    intro c
    have hsub : attributesNamed subscribedTwice c ⊆ {⟨7⟩, ⟨8⟩} := by
      rintro a ⟨f, hf⟩
      simp only [subscribedTwice, List.mem_cons, Op.subscribeAttribute.injEq, reduceCtorEq,
        List.not_mem_nil, or_false] at hf
      rcases hf with ⟨-, rfl, -⟩ | ⟨-, rfl, -⟩ | ⟨-, rfl, -⟩ | ⟨-, rfl, -⟩ <;> simp
    refine (Set.ncard_le_ncard hsub (Set.toFinite _)).trans_lt ?_
    rw [Set.ncard_pair (by decide)]
    decide
  obtain ⟨hindexed, -, hsubscribers, -⟩ := index_eq_scan subscribedTwice hfew
  exact ⟨hindexed, by decide, (hsubscribers _ _).mpr ⟨⟨8⟩, by decide⟩, by decide, by decide⟩

end SubscriptionMatrix

end Hla4
