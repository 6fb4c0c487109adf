/-
# `Hla4.Lib.Numbering` — tables numbered by a counter

A counter numbers what it meets: `mk next`, and on to `next + 1`.  Two shapes of
table come out of that.

    Numbered mk next m    `m` gives its keys numbers below `next`, no two the same
    Inverts name m r      `m` finds a value by a name, `r` what is filed under the
                          value, and each undoes the other

A key may be met again.  It is numbered again, and its old number is lost: the
numbers in use are still distinct, but they need not be all that were given out.
-/
import Mathlib.Data.Set.Function
import Mathlib.Order.Interval.Set.Defs
import Hla4.Lib.HashMap

namespace Lib

variable {K V : Type}

/-- The keys of the table have numbers in `1 .. next - 1`, no two the same. -/
structure Numbered [DecidableEq K] (mk : Nat → V) (next : Nat) (m : HashMap K V) : Prop where
  below : ∀ key v, m.lookup key = some v → ∃ i, 1 ≤ i ∧ i < next ∧ v = mk i
  distinct : ∀ key key' v, m.lookup key = some v → m.lookup key' = some v → key = key'

namespace Numbered

variable [DecidableEq K] {mk : Nat → V} {next : Nat} {m : HashMap K V}

theorem empty : Numbered mk 1 (∅ : HashMap K V) where
  below := fun _ _ h => by cases h
  distinct := fun _ _ _ h => by cases h

theorem fresh (h : Numbered mk next m) (hinj : Set.InjOn mk (Set.Iic next)) (key : K) :
    m.lookup key ≠ some (mk next) := by
  intro hkey
  obtain ⟨i, _, hi, he⟩ := h.below key _ hkey
  have : next = i := hinj (Set.mem_Iic.mpr le_rfl) (Set.mem_Iic.mpr hi.le) he
  omega

theorem insert (h : Numbered mk next m) (hnext : 1 ≤ next) (hinj : Set.InjOn mk (Set.Iic next))
    (key : K) : Numbered mk (next + 1) (AList.insert key (mk next) m) where
  below := by
    intro key' v hv
    rw [HashMap.lookup_insert_eq] at hv
    split at hv
    · cases hv
      exact ⟨next, hnext, next.lt_succ_self, rfl⟩
    · obtain ⟨i, hi, hlt, he⟩ := h.below key' v hv
      exact ⟨i, hi, Nat.lt_succ_of_lt hlt, he⟩
  distinct := by
    intro key₁ key₂ v h₁ h₂
    rw [HashMap.lookup_insert_eq] at h₁ h₂
    split at h₁ <;> split at h₂
    · next he₁ he₂ => exact he₁.trans he₂.symm
    · cases h₁
      exact absurd h₂ (h.fresh hinj _)
    · cases h₂
      exact absurd h₁ (h.fresh hinj _)
    · exact h.distinct _ _ v h₁ h₂

end Numbered

/-! ## Numbering a list -/

section List

variable {A : Type} [DecidableEq K] {mk : Nat → V} {key : A → K}

/-- Number one key more. -/
def enter (mk : Nat → V) (key : A → K) (s : HashMap K V × Nat) (a : A) : HashMap K V × Nat :=
  (s.1.insert (key a) (mk s.2), s.2 + 1)

theorem foldl_enter_snd (l : List A) (s : HashMap K V × Nat) :
    (l.foldl (enter mk key) s).2 = s.2 + l.length := by
  induction l generalizing s with
  | nil => rfl
  | cons a l ih =>
    rw [List.foldl_cons, ih, List.length_cons, enter]
    omega

theorem mem_foldl_enter (l : List A) (s : HashMap K V × Nat) (k : K) :
    k ∈ (l.foldl (enter mk key) s).1 ↔ k ∈ s.1 ∨ k ∈ l.map key := by
  induction l generalizing s with
  | nil => simp
  | cons a l ih =>
    rw [List.foldl_cons, ih, enter, AList.mem_insert, List.map_cons, List.mem_cons]
    tauto

theorem Numbered.foldl_enter {l : List A} {s : HashMap K V × Nat} (h : Numbered mk s.2 s.1)
    (hnext : 1 ≤ s.2) (hinj : Set.InjOn mk (Set.Iio (s.2 + l.length))) :
    Numbered mk (s.2 + l.length) (l.foldl (enter mk key) s).1 := by
  induction l generalizing s with
  | nil => exact h
  | cons a l ih =>
    rw [List.length_cons] at hinj ⊢
    have hone : Set.InjOn mk (Set.Iic s.2) := hinj.mono fun i hi => by
      simp only [Set.mem_Iic, Set.mem_Iio] at hi ⊢
      omega
    have hlen : s.2 + (l.length + 1) = (enter mk key s a).2 + l.length := by
      rw [enter]
      omega
    rw [hlen] at hinj ⊢
    exact ih (h.insert hnext hone (key a)) (Nat.le_add_left 1 _) hinj

end List

/-! ## Both ways -/

variable {D : Type} [DecidableEq K] [DecidableEq V]

/-- What `m` finds by a name is filed in `r` under that name, and the other way
round. -/
def Inverts (name : D → K) (m : HashMap K V) (r : HashMap V D) : Prop :=
  ∀ key v, m.lookup key = some v ↔ ∃ d, r.lookup v = some d ∧ name d = key

namespace Inverts

variable {name : D → K} {m : HashMap K V} {r : HashMap V D}

theorem empty : Inverts name (∅ : HashMap K V) (∅ : HashMap V D) := by
  intro key v
  simp

theorem insert (h : Inverts name m r) {d : D} {v : V} (hname : name d ∉ m) (hv : v ∉ r) :
    Inverts name (AList.insert (name d) v m) (AList.insert v d r) := by
  intro key w
  rw [HashMap.lookup_insert_eq, HashMap.lookup_insert_eq]
  by_cases hkey : key = name d
  · rw [if_pos hkey]
    by_cases hw : w = v
    · simp [hw, hkey]
    · rw [if_neg hw]
      refine ⟨fun he => absurd (Option.some.inj he).symm hw, ?_⟩
      intro hold
      exact absurd (HashMap.mem_of_lookup ((h key w).mpr hold)) (hkey ▸ hname)
  · rw [if_neg hkey]
    by_cases hw : w = v
    · rw [if_pos hw]
      constructor
      · intro hold
        obtain ⟨_, hr, _⟩ := (h key w).mp hold
        exact absurd (HashMap.mem_of_lookup hr) (hw ▸ hv)
      · rintro ⟨d', hd', he⟩
        cases hd'
        exact absurd he.symm hkey
    · rw [if_neg hw]
      exact h key w

end Inverts

end Lib
