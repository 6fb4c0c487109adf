/-
# `Hla4.Lib.Sections` — calls that run in sections

Calls run side by side on a shared state, each in sections: a section is
executed as a whole, and between two sections of a call any other may run.  A
call is a value of `P`, what it still has to do and what it has in hand; a
section takes it on (`sect`), with an input the environment decides.  The
environment may also change the shared state by itself (`act`).

The rule for such systems is that of interference freedom: an assertion `J` on
the shared state, and an assertion `K` that each call makes where it stands,
hold throughout if every section keeps `J`, leads its own call to `K`, and
leaves the `K` of the other calls true.  Where calls must keep out of each
other's way there is a third assertion, `R`, on any two of them
(`always_apart`).
-/
import Hla4.Lib.Run
import Mathlib.Logic.Function.Basic
import Mathlib.Data.Fintype.Defs

namespace Lib

structure Sections (S P X A : Type) where
  sect : S → P → X → S × P
  act : S → A → S

inductive SectionEvent (I X A : Type)
  | go (i : I) (x : X)
  | act (a : A)

/-- The callers of the smallest interleavings. -/
inductive Two
  | one
  | two
deriving DecidableEq

instance : Fintype Two := ⟨⟨[Two.one, Two.two], by decide⟩, by intro i; cases i <;> decide⟩

namespace Sections

variable {S P X A I : Type} [DecidableEq I] (m : Sections S P X A)

def step (s : S × (I → P)) : SectionEvent I X A → S × (I → P)
  | .go i x => ((m.sect s.1 (s.2 i) x).1, Function.update s.2 i (m.sect s.1 (s.2 i) x).2)
  | .act a => (m.act s.1 a, s.2)

/-- One call by itself. -/
def solo : List X → S → P → S × P
  | [], s, p => (s, p)
  | x :: xs, s, p => solo xs (m.sect s p x).1 (m.sect s p x).2

variable {m}

theorem run_solo (i : I) (xs : List X) (s : S × (I → P)) :
    run m.step s (xs.map (.go i)) =
      ((m.solo xs s.1 (s.2 i)).1, Function.update s.2 i (m.solo xs s.1 (s.2 i)).2) := by
  induction xs generalizing s with
  | nil => simp [run, solo]
  | cons x xs ih =>
    rw [List.map_cons, run, ih, step]
    dsimp only
    rw [Function.update_self, Function.update_idem]
    rfl

/-- Left to itself, with the same input all along, a call comes from `a` to
`b`. -/
def Leads (m : Sections S P X A) (x : X) (a b : S × P) : Prop :=
  ∃ k, m.solo (List.replicate k x) a.1 a.2 = b

namespace Leads

variable {x : X} {a b c : S × P}

theorem refl : m.Leads x a a := ⟨0, rfl⟩

theorem head (h : m.Leads x (m.sect a.1 a.2 x) b) : m.Leads x a b := by
  obtain ⟨k, h⟩ := h
  exact ⟨k + 1, h⟩

theorem trans (hab : m.Leads x a b) (hbc : m.Leads x b c) : m.Leads x a c := by
  obtain ⟨k, hab⟩ := hab
  induction k generalizing a with
  | zero => cases hab; exact hbc
  | succ k ih => exact head (ih hab)

end Leads

variable {J : S → Prop} {K : S → P → Prop} {R : P → P → Prop}
  {ok : S × (I → P) → SectionEvent I X A → Prop}

/-- The three assertions. -/
structure Apart (J : S → Prop) (K : S → P → Prop) (R : P → P → Prop) (s : S × (I → P)) : Prop where
  shared : J s.1
  call : ∀ i, K s.1 (s.2 i)
  pair : ∀ i j, i ≠ j → R (s.2 i) (s.2 j)

/-- **The rule of interference freedom**, with an assertion on pairs. -/
theorem always_apart (symm : ∀ p q, R p q → R q p)
    (own : ∀ s i x, Apart J K R s → ok s (.go i x) →
      J (m.sect s.1 (s.2 i) x).1 ∧ K (m.sect s.1 (s.2 i) x).1 (m.sect s.1 (s.2 i) x).2)
    (free : ∀ s i x j, Apart J K R s → ok s (.go i x) → j ≠ i →
      K (m.sect s.1 (s.2 i) x).1 (s.2 j) ∧ R (m.sect s.1 (s.2 i) x).2 (s.2 j))
    (acts : ∀ s a, J s → J (m.act s a) ∧ ∀ p, K s p → K (m.act s a) p)
    {s : S × (I → P)} {es : List (SectionEvent I X A)} (h : StepsMeet m.step ok s es)
    (hs : Apart J K R s) : Always m.step (Apart J K R) s es := by
  refine h.always ?_ hs
  rintro s (⟨i, x⟩ | a) hs hok
  · obtain ⟨hJ, hK⟩ := own s i x hs hok
    have other : ∀ j, j ≠ i → (m.step s (.go i x)).2 j = s.2 j :=
      fun j hj => Function.update_of_ne hj ..
    have self : (m.step s (.go i x)).2 i = (m.sect s.1 (s.2 i) x).2 := Function.update_self ..
    refine ⟨hJ, fun j => ?_, fun j k hjk => ?_⟩
    · by_cases hj : j = i
      · subst hj
        rw [self]
        exact hK
      · rw [other j hj]
        exact (free s i x j hs hok hj).1
    · -- one of the two may be the call that went on
      by_cases hj : j = i
      · subst hj
        rw [self, other k hjk.symm]
        exact (free s j x k hs hok hjk.symm).2
      · rw [other j hj]
        by_cases hk : k = i
        · subst hk
          rw [self]
          exact symm _ _ (free s k x j hs hok hj).2
        · rw [other k hk]
          exact hs.pair j k hjk
  · obtain ⟨hJ, hact⟩ := acts s.1 a hs.shared
    exact ⟨hJ, fun j => hact _ (hs.call j), hs.pair⟩

/-- **The rule of interference freedom.** -/
theorem always
    (own : ∀ s i x, ok s (.go i x) → J s.1 → K s.1 (s.2 i) →
      J (m.sect s.1 (s.2 i) x).1 ∧ K (m.sect s.1 (s.2 i) x).1 (m.sect s.1 (s.2 i) x).2)
    (free : ∀ s i x j, ok s (.go i x) → j ≠ i → K s.1 (s.2 j) → K (m.sect s.1 (s.2 i) x).1 (s.2 j))
    (acts : ∀ s a, J s → J (m.act s a) ∧ ∀ p, K s p → K (m.act s a) p)
    {s : S × (I → P)} {es : List (SectionEvent I X A)} (h : StepsMeet m.step ok s es)
    (hJ : J s.1) (hK : ∀ i, K s.1 (s.2 i)) :
    Always m.step (fun s => J s.1 ∧ ∀ i, K s.1 (s.2 i)) s es := by
  have hinv : Always m.step (Apart J K fun _ _ => True) s es :=
    always_apart (fun _ _ _ => trivial) (fun s i x hs hok => own s i x hok hs.shared (hs.call i))
      (fun s i x j hs hok hj => ⟨free s i x j hok hj (hs.call j), trivial⟩) acts h
      ⟨hJ, hK, fun _ _ _ => trivial⟩
  exact fun done hd => ⟨(hinv done hd).shared, (hinv done hd).call⟩

end Sections

end Lib
