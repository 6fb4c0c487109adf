/-
# `Hla4.Lib.Ledger` — entries kept in two places

Members make entries on topics.  Every entry is written twice: in the member's
own record, which goes when the member leaves, and in a row of a table shared by
all, which stays.  The two places AGREE if every member's row says what its own
record says.

The changes are those a service can make: a member marks or strikes topics of
its own, in both places; `clear` strikes topics in ONE record and in EVERY row.
`Careful` says when a change keeps the agreement (`Agrees.post`): a `clear` must
not meet the topics of another member, and a newcomer must not find an old row
under its name.

The table is EXACT, on some of the topics, if a row has a topic exactly when a
member's record has it: the rows of those who left are empty there as well.  That
asks for more care (`Tidy`): whoever leaves strikes its topics first, and only
members mark.
-/
import Mathlib.Data.Set.Basic
import Mathlib.Logic.Function.Basic

namespace Lib

structure Ledger (M T : Type) where
  /-- the records of the members; `none` for who is no member -/
  own : M → Option (Set T)
  /-- the rows of the shared table -/
  table : M → Set T

/-- A change of a ledger. -/
inductive Posting (M T : Type)
  | keep
  | enter (m : M)
  | leave (m : M)
  | mark (m : M) (xs : Set T)
  | strike (m : M) (xs : Set T)
  /-- strike in one record and in every row -/
  | clear (m : M) (xs : Set T)

/-- The topics a change is about. -/
def Posting.topics {M T : Type} : Posting M T → Set T
  | .mark _ xs => xs
  | .strike _ xs => xs
  | .clear _ xs => xs
  | _ => ∅

namespace Ledger

variable {M T : Type} [DecidableEq M]

/-- Rewrite the record of a member. -/
def rewrite (L : Ledger M T) (m : M) (g : Set T → Set T) : M → Option (Set T) :=
  Function.update L.own m ((L.own m).map g)

def post (L : Ledger M T) : Posting M T → Ledger M T
  | .keep => L
  | .enter m => { L with own := Function.update L.own m (some ∅) }
  | .leave m => { L with own := Function.update L.own m none }
  | .mark m xs => ⟨L.rewrite m (· ∪ xs), Function.update L.table m (L.table m ∪ xs)⟩
  | .strike m xs => ⟨L.rewrite m (· \ xs), Function.update L.table m (L.table m \ xs)⟩
  | .clear m xs => ⟨L.rewrite m (· \ xs), fun k => L.table k \ xs⟩

/-- The two places say the same of every member. -/
def Agrees (L : Ledger M T) : Prop := ∀ m s, L.own m = some s → L.table m = s

/-- When a change keeps the two places in agreement. -/
def Careful (L : Ledger M T) : Posting M T → Prop
  | .enter m => L.table m = ∅
  | .clear m xs => ∀ k s, k ≠ m → L.own k = some s → ∀ t ∈ s, t ∉ xs
  | _ => True

variable {L : Ledger M T} {m : M} {xs : Set T}

/-- A member's record and row rewritten alike agree again. -/
theorem Agrees.rewrite (h : L.Agrees) {g : Set T → Set T} :
    Agrees ⟨L.rewrite m g, Function.update L.table m (g (L.table m))⟩ := by
  intro k s hk
  by_cases hkm : k = m
  · subst hkm
    simp only [Ledger.rewrite, Function.update_self] at hk ⊢
    obtain ⟨s', hs', rfl⟩ := Option.map_eq_some_iff.mp hk
    rw [h k s' hs']
  · simp only [Ledger.rewrite, Function.update_of_ne hkm] at hk ⊢
    exact h k s hk

theorem Agrees.clear (h : L.Agrees) (hc : L.Careful (.clear m xs)) :
    (L.post (.clear m xs)).Agrees := by
  intro k s hk
  show L.table k \ xs = s
  by_cases hkm : k = m
  · subst hkm
    simp only [post, Ledger.rewrite, Function.update_self] at hk
    obtain ⟨s', hs', rfl⟩ := Option.map_eq_some_iff.mp hk
    rw [h k s' hs']
  · simp only [post, Ledger.rewrite, Function.update_of_ne hkm] at hk
    rw [h k s hk]
    -- nothing of another member's is struck
    ext t
    exact ⟨And.left, fun ht => ⟨ht, hc k s hkm hk t ht⟩⟩

/-- **Careful changes keep the two places in agreement.** -/
theorem Agrees.post (h : L.Agrees) {p : Posting M T} (hp : L.Careful p) : (L.post p).Agrees := by
  cases p with
  | keep => exact h
  | enter m =>
    intro k s hk
    by_cases hkm : k = m
    · subst hkm
      simp only [Ledger.post, Function.update_self, Option.some.injEq] at hk
      exact (show L.table k = ∅ from hp).trans hk
    · simp only [Ledger.post, Function.update_of_ne hkm] at hk
      exact h k s hk
  | leave m =>
    intro k s hk
    by_cases hkm : k = m
    · subst hkm
      simp only [Ledger.post, Function.update_self, reduceCtorEq] at hk
    · simp only [Ledger.post, Function.update_of_ne hkm] at hk
      exact h k s hk
  | mark | strike => exact h.rewrite
  | clear => exact h.clear hp

/-! ## Exact rows -/

/-- On the topics in `S`, the rows are the records of the members. -/
def ExactOn (S : Set T) (L : Ledger M T) : Prop :=
  ∀ m, ∀ t ∈ S, t ∈ L.table m ↔ ∃ s, L.own m = some s ∧ t ∈ s

/-- When a change keeps the rows exact on the topics in `S`. -/
def Tidy (S : Set T) (L : Ledger M T) : Posting M T → Prop
  | .enter m => L.own m = none
  | .leave m => ∀ s, L.own m = some s → ∀ t ∈ S, t ∉ s
  | .mark m _ => ∃ s, L.own m = some s
  | .clear m xs => ∀ k s, k ≠ m → L.own k = some s → ∀ t ∈ S, t ∈ s → t ∉ xs
  | _ => True

variable {S : Set T}

theorem ExactOn.rewrite (h : L.ExactOn S) {g : Set T → Set T} {row : Set T}
    (hg : ∀ t ∈ S, t ∈ row ↔ ∃ s, L.own m = some s ∧ t ∈ g s) :
    ExactOn S ⟨L.rewrite m g, Function.update L.table m row⟩ := by
  intro k t ht
  by_cases hk : k = m
  · subst hk
    simp only [Ledger.rewrite, Function.update_self, Option.map_eq_some_iff, hg t ht]
    constructor
    · rintro ⟨s, hs, hts⟩
      exact ⟨g s, ⟨s, hs, rfl⟩, hts⟩
    · rintro ⟨_, ⟨s, hs, rfl⟩, hts⟩
      exact ⟨s, hs, hts⟩
  · simp only [Ledger.rewrite, Function.update_of_ne hk]
    exact h k t ht

theorem ExactOn.replace (h : L.ExactOn S) {o : Option (Set T)}
    (hnone : ∀ t ∈ S, t ∉ L.table m) (ho : ∀ s, o = some s → ∀ t ∈ S, t ∉ s) :
    ExactOn S { L with own := Function.update L.own m o } := by
  intro k t ht
  by_cases hk : k = m
  · subst hk
    simp only [Function.update_self]
    refine iff_of_false (hnone t ht) ?_
    rintro ⟨s, hs, hts⟩
    exact ho s hs t ht hts
  · simp only [Function.update_of_ne hk]
    exact h k t ht

/-- **Tidy changes keep the rows exact.** -/
theorem ExactOn.post (h : L.ExactOn S) {p : Posting M T} (hp : L.Tidy S p) :
    (L.post p).ExactOn S := by
  cases p with
  | keep => exact h
  | enter m =>
    refine h.replace (fun t ht hrow => ?_) fun s hs t _ hts => ?_
    · obtain ⟨s, hs, _⟩ := (h m t ht).mp hrow
      exact Option.some_ne_none s (hs.symm.trans hp)
    · cases hs
      exact hts
  | leave m =>
    refine h.replace (fun t ht hrow => ?_) fun s hs => ?_
    · obtain ⟨s, hs, hts⟩ := (h m t ht).mp hrow
      exact hp s hs t ht hts
    · cases hs
  | mark m =>
    refine h.rewrite fun t ht => ?_
    obtain ⟨s, hs⟩ := hp
    have hrow := h m t ht
    simp only [hs, Option.some.injEq, exists_eq_left'] at hrow ⊢
    exact or_congr_left hrow
  | strike m =>
    refine h.rewrite fun t ht => ?_
    rw [Set.mem_sdiff, h m t ht]
    exact ⟨fun ⟨⟨s, hs, hts⟩, hx⟩ => ⟨s, hs, hts, hx⟩, fun ⟨s, hs, hts, hx⟩ => ⟨⟨s, hs, hts⟩, hx⟩⟩
  | clear m xs =>
    intro k t ht
    show t ∈ L.table k \ xs ↔ ∃ s, L.rewrite m (· \ xs) k = some s ∧ t ∈ s
    rw [Set.mem_sdiff, h k t ht]
    by_cases hk : k = m
    · subst hk
      simp only [Ledger.rewrite, Function.update_self, Option.map_eq_some_iff]
      constructor
      · rintro ⟨⟨s, hs, hts⟩, hx⟩
        exact ⟨s \ xs, ⟨s, hs, rfl⟩, hts, hx⟩
      · rintro ⟨_, ⟨s, hs, rfl⟩, hts, hx⟩
        exact ⟨⟨s, hs, hts⟩, hx⟩
    · -- nothing of another member's is struck
      simp only [Ledger.rewrite, Function.update_of_ne hk]
      exact and_iff_left_of_imp fun ⟨s, hs, hts⟩ => hp k s hk hs t ht hts

/-! ## Listed topics -/

/-- Somebody's row has one of the topics. -/
def Listed (S : Set T) (L : Ledger M T) : Prop := ∃ m, ∃ t ∈ S, t ∈ L.table m

omit [DecidableEq M] in
theorem ExactOn.listed_iff (h : L.ExactOn S) :
    L.Listed S ↔ ∃ m s, L.own m = some s ∧ ∃ t ∈ S, t ∈ s := by
  constructor
  · rintro ⟨m, t, ht, hrow⟩
    obtain ⟨s, hs, hts⟩ := (h m t ht).mp hrow
    exact ⟨m, s, hs, t, ht, hts⟩
  · rintro ⟨m, s, hs, t, ht, hts⟩
    exact ⟨m, t, ht, (h m t ht).mpr ⟨s, hs, hts⟩⟩

theorem listed_post {p : Posting M T} (hp : ∀ t ∈ S, t ∉ p.topics) :
    (L.post p).Listed S ↔ L.Listed S := by
  refine exists_congr fun k => exists_congr fun t => and_congr_right fun ht => ?_
  have ht := hp t ht
  cases p with
  | mark m =>
    by_cases hk : k = m
    · subst hk
      simp only [Ledger.post, Function.update_self]
      exact or_iff_left ht
    · simp only [Ledger.post, Function.update_of_ne hk]
  | strike m =>
    by_cases hk : k = m
    · subst hk
      simp only [Ledger.post, Function.update_self]
      exact and_iff_left ht
    · simp only [Ledger.post, Function.update_of_ne hk]
  | clear => exact and_iff_left ht
  | _ => exact Iff.rfl

theorem Listed.mark (h : L.Listed S) : (L.post (.mark m xs)).Listed S := by
  obtain ⟨k, t, ht, hrow⟩ := h
  refine ⟨k, t, ht, ?_⟩
  by_cases hk : k = m
  · subst hk
    simp only [Ledger.post, Function.update_self]
    exact .inl hrow
  · simpa only [Ledger.post, Function.update_of_ne hk] using hrow

theorem Listed.of_strike (h : (L.post (.strike m xs)).Listed S) : L.Listed S := by
  obtain ⟨k, t, ht, hrow⟩ := h
  refine ⟨k, t, ht, ?_⟩
  by_cases hk : k = m
  · subst hk
    simp only [Ledger.post, Function.update_self] at hrow
    exact hrow.1
  · simpa only [Ledger.post, Function.update_of_ne hk] using hrow

theorem Listed.of_clear (h : (L.post (.clear m xs)).Listed S) : L.Listed S := by
  obtain ⟨k, t, ht, hrow⟩ := h
  exact ⟨k, t, ht, hrow.1⟩

theorem subset_of_own_mark {s : Set T} (h : (L.post (.mark m xs)).own m = some s) : xs ⊆ s := by
  simp only [Ledger.post, Ledger.rewrite, Function.update_self, Option.map_eq_some_iff] at h
  obtain ⟨s', _, rfl⟩ := h
  exact Set.subset_union_right

end Ledger

end Lib
