/-
# `Hla4.Lib.Outbox` — several producers, one channel

Producers push messages into one channel.  Each pushes its own in order; how the
pushes of different producers mix is open.

    due j     what producer `j` has still to push
    sent      what has been pushed, in order

A message `q` may be meant to come after a message `p`.  It does if whoever has a
`q` to push finds a `p` pushed already, or has one to push before it, or leaves
the `q` until no other producer has a `p` (`Backed`).
-/
import Hla4.Lib.Watch
import Mathlib.Logic.Function.Basic

namespace Lib

variable {J A : Type} {p q : A → Prop} {sent l : List A} {due : J → List A}

/-- A `p` has been pushed, or somebody has it to push. -/
def Announced (p : A → Prop) (sent : List A) (due : J → List A) : Prop :=
  (∃ x ∈ sent, p x) ∨ ∃ j, ∃ x ∈ due j, p x

/-- Behind every `q` there is a `p`: on the channel, earlier in the same
producer's hands, or in another's. -/
structure Backed (p q : A → Prop) (sent : List A) (due : J → List A) : Prop where
  first : Preceded p q sent
  later : ∀ j l₁ y l₂, due j = l₁ ++ y :: l₂ → q y →
    (∃ x ∈ sent, p x) ∨ (∃ x ∈ l₁, p x) ∨ ∃ k, k ≠ j ∧ ∃ x ∈ due k, p x

theorem backed_nil : Backed p q ([] : List A) (fun _ : J => []) where
  first := preceded_nil
  later := fun _ _ _ _ h => by simp at h

variable [DecidableEq J] {j : J} {a : A} {rest : List A}

/-! ## A push -/

theorem Announced.push (h : Announced p sent due) (hj : due j = a :: rest) :
    Announced p (sent ++ [a]) (Function.update due j rest) := by
  rcases h with ⟨x, hx, hp⟩ | ⟨k, x, hx, hp⟩
  · exact .inl ⟨x, List.mem_append_left _ hx, hp⟩
  · by_cases hk : k = j
    · rw [hk, hj] at hx
      rcases List.mem_cons.mp hx with rfl | hx
      · exact .inl ⟨x, List.mem_append_right _ (List.mem_singleton_self x), hp⟩
      · exact .inr ⟨j, x, by rwa [Function.update_self], hp⟩
    · exact .inr ⟨k, x, by rwa [Function.update_of_ne hk], hp⟩

/-- A `q` is pushed when no other producer has a `p`. -/
theorem Backed.push (h : Backed p q sent due) (hj : due j = a :: rest)
    (hq : q a → ∀ k, k ≠ j → ∀ x ∈ due k, ¬ p x) :
    Backed p q (sent ++ [a]) (Function.update due j rest) where
  first := by
    refine h.first.append fun hqa => ?_
    rcases h.later j [] a rest hj hqa with hsent | ⟨x, hx, _⟩ | ⟨k, hk, x, hx, hp⟩
    · exact hsent
    · cases hx
    · exact absurd hp (hq hqa k hk x hx)
  later := by
    -- what was pushed before, or is pushed now
    have pushed : ∀ {x}, x ∈ sent → p x → ∃ x ∈ sent ++ [a], p x :=
      fun hx hp => ⟨_, List.mem_append_left _ hx, hp⟩
    have now : p a → ∃ x ∈ sent ++ [a], p x :=
      fun hp => ⟨a, List.mem_append_right _ (List.mem_singleton_self a), hp⟩
    intro k l₁ y l₂ hk hy
    by_cases hkj : k = j
    · subst hkj
      rw [Function.update_self] at hk
      rcases h.later k (a :: l₁) y l₂ (by rw [hj, hk, List.cons_append]) hy with
        ⟨x, hx, hp⟩ | ⟨x, hx, hp⟩ | ⟨i, hi, x, hx, hp⟩
      · exact .inl (pushed hx hp)
      · rcases List.mem_cons.mp hx with rfl | hx
        · exact .inl (now hp)
        · exact .inr (.inl ⟨x, hx, hp⟩)
      · exact .inr (.inr ⟨i, hi, x, by rwa [Function.update_of_ne hi], hp⟩)
    · rw [Function.update_of_ne hkj] at hk
      rcases h.later k l₁ y l₂ hk hy with ⟨x, hx, hp⟩ | hl | ⟨i, hi, x, hx, hp⟩
      · exact .inl (pushed hx hp)
      · exact .inr (.inl hl)
      · by_cases hij : i = j
        · subst hij
          rw [hj] at hx
          rcases List.mem_cons.mp hx with rfl | hx
          · exact .inl (now hp)
          · exact .inr (.inr ⟨i, hi, x, by rwa [Function.update_self], hp⟩)
        · exact .inr (.inr ⟨i, hi, x, by rwa [Function.update_of_ne hij], hp⟩)

/-! ## New messages -/

theorem Announced.load (h : Announced p sent due) (hj : due j = []) (l : List A) :
    Announced p sent (Function.update due j l) := by
  refine h.imp id ?_
  rintro ⟨k, x, hx, hp⟩
  have hk : k ≠ j := by
    rintro rfl
    rw [hj] at hx
    cases hx
  exact ⟨k, x, by rwa [Function.update_of_ne hk], hp⟩

/-- Each new `q` is after a new `p`, or there is a `p` already. -/
theorem Backed.load (h : Backed p q sent due) (hj : due j = [])
    (hl : ∀ l₁ y l₂, l = l₁ ++ y :: l₂ → q y → (∃ x ∈ l₁, p x) ∨ Announced p sent due) :
    Backed p q sent (Function.update due j l) where
  first := h.first
  later := by
    have other : ∀ {k x}, x ∈ due k → k ≠ j := by
      rintro k x hx rfl
      rw [hj] at hx
      cases hx
    intro k l₁ y l₂ hk hy
    by_cases hkj : k = j
    · subst hkj
      rw [Function.update_self] at hk
      rcases hl l₁ y l₂ hk hy with hin | hsent | ⟨i, x, hx, hp⟩
      · exact .inr (.inl hin)
      · exact .inl hsent
      · exact .inr (.inr ⟨i, other hx, x, by rwa [Function.update_of_ne (other hx)], hp⟩)
    · rw [Function.update_of_ne hkj] at hk
      rcases h.later k l₁ y l₂ hk hy with hsent | hin | ⟨i, hi, x, hx, hp⟩
      · exact .inl hsent
      · exact .inr (.inl hin)
      · exact .inr (.inr ⟨i, hi, x, by rwa [Function.update_of_ne (other hx)], hp⟩)

/-! ## Messages dropped -/

theorem Announced.drop (h : Announced p sent due) (hj : ∀ x ∈ due j, ¬ p x) :
    Announced p sent (Function.update due j []) := by
  refine h.imp id ?_
  rintro ⟨k, x, hx, hp⟩
  have hk : k ≠ j := by
    rintro rfl
    exact hj x hx hp
  exact ⟨k, x, by rwa [Function.update_of_ne hk], hp⟩

theorem Backed.drop (h : Backed p q sent due) (hj : ∀ x ∈ due j, ¬ p x) :
    Backed p q sent (Function.update due j []) where
  first := h.first
  later := by
    intro k l₁ y l₂ hk hy
    by_cases hkj : k = j
    · rw [hkj, Function.update_self] at hk
      simp at hk
    · rw [Function.update_of_ne hkj] at hk
      rcases h.later k l₁ y l₂ hk hy with hsent | hin | ⟨i, hi, x, hx, hp⟩
      · exact .inl hsent
      · exact .inr (.inl hin)
      · have hij : i ≠ j := by
          rintro rfl
          exact hj x hx hp
        exact .inr (.inr ⟨i, hi, x, by rwa [Function.update_of_ne hij], hp⟩)

end Lib
