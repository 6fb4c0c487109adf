/-
# `Hla4.Lib.Checked` — straight-line code with early error returns

A function that checks its arguments one after the other and returns an error
at the first that fails is a `do` block in `Except`.  Two steps are enough to
write such code:

    require p e   go on if `p` holds, fail with `e` otherwise
    getOr x e     the value of `x`, or fail with `e`

`Yields x Q` says that `Q` holds of whatever `x` returns when it does not
fail.  The rule for sequencing hands each step's result on with the equation
that produced it, so a proof about a handler follows the handler line by line.
`Alike R x y` is the same for two pieces of code that make the same checks.
-/
import Mathlib.Logic.Basic

namespace Lib

variable {ε α β : Type}

/-- Go on if `p` holds, fail with `e` otherwise. -/
def require (p : Prop) [Decidable p] (e : ε) : Except ε Unit :=
  if p then .ok () else .error e

/-- The value of `x`, or fail with `e`. -/
def getOr (x : Option α) (e : ε) : Except ε α :=
  match x with
  | some a => .ok a
  | none => .error e

@[simp] theorem require_eq_ok {p : Prop} [Decidable p] {e : ε} {u : Unit} :
    require p e = .ok u ↔ p := by
  unfold require
  split <;> simp_all

@[simp] theorem getOr_eq_ok {x : Option α} {e : ε} {a : α} : getOr x e = .ok a ↔ x = some a := by
  unfold getOr
  cases x <;> simp

theorem bind_eq_ok {x : Except ε α} {f : α → Except ε β} {b : β} :
    (x >>= f) = .ok b ↔ ∃ a, x = .ok a ∧ f a = .ok b := by
  cases x <;> simp [bind, Except.bind]

theorem pure_eq_ok {a b : α} : (Pure.pure a : Except ε α) = .ok b ↔ a = b :=
  ⟨Except.ok.inj, congrArg _⟩

/-- A function applied to every element of a list: each has its result there, and
each result is some element's. -/
theorem mem_of_mapM {f : α → Except ε β} {l : List α} {l' : List β} (h : l.mapM f = .ok l') :
    (∀ a ∈ l, ∃ b ∈ l', f a = .ok b) ∧ ∀ b ∈ l', ∃ a ∈ l, f a = .ok b := by
  induction l generalizing l' with
  | nil =>
    rw [List.mapM_nil] at h
    cases h
    exact ⟨by simp, by simp⟩
  | cons a l ih =>
    rw [List.mapM_cons, bind_eq_ok] at h
    obtain ⟨b, hb, h⟩ := h
    rw [bind_eq_ok] at h
    obtain ⟨bs, hbs, h⟩ := h
    cases h
    obtain ⟨hto, hfrom⟩ := ih hbs
    constructor
    · intro x hx
      rcases List.mem_cons.mp hx with rfl | hx
      · exact ⟨b, List.mem_cons_self, hb⟩
      · obtain ⟨y, hy, he⟩ := hto x hx
        exact ⟨y, List.mem_cons_of_mem b hy, he⟩
    · intro y hy
      rcases List.mem_cons.mp hy with rfl | hy
      · exact ⟨a, List.mem_cons_self, hb⟩
      · obtain ⟨x, hx, he⟩ := hfrom y hy
        exact ⟨x, List.mem_cons_of_mem a hx, he⟩

theorem toOption_eq_some {x : Except ε α} {a : α} : x.toOption = some a ↔ x = .ok a := by
  cases x <;> simp [Except.toOption]

/-- What `x` returns, if it returns, satisfies `Q`. -/
def Yields (x : Except ε α) (Q : α → Prop) : Prop := ∀ a, x = .ok a → Q a

namespace Yields

theorem ok {a : α} {Q : α → Prop} (h : Q a) : Yields (.ok a : Except ε α) Q := by
  rintro b ⟨⟩
  exact h

theorem pure {a : α} {Q : α → Prop} (h : Q a) : Yields (Pure.pure a : Except ε α) Q := ok h

theorem error {e : ε} {Q : α → Prop} : Yields (.error e : Except ε α) Q := fun _ h => nomatch h

theorem bind {x : Except ε α} {f : α → Except ε β} {Q : β → Prop}
    (h : ∀ a, x = .ok a → Yields (f a) Q) : Yields (x >>= f) Q := by
  intro b hb
  obtain ⟨a, ha, hb⟩ := bind_eq_ok.mp hb
  exact h a ha b hb

/-- A loop that checks as it goes: what each round keeps, the loop keeps. -/
theorem foldlM {f : β → α → Except ε β} {P : β → Prop} (h : ∀ b a, P b → Yields (f b a) P)
    {l : List α} {b : β} (hb : P b) : Yields (l.foldlM f b) P := by
  induction l generalizing b with
  | nil => exact pure hb
  | cons a l ih =>
    rw [List.foldlM_cons]
    exact bind fun b' hb' => ih (h b a hb b' hb')

end Yields

/-- Both fail, or both return and `R` relates what they return. -/
def Alike (R : α → β → Prop) (x : Except ε α) (y : Except ε β) : Prop :=
  (∃ e e', x = .error e ∧ y = .error e') ∨ ∃ a b, x = .ok a ∧ y = .ok b ∧ R a b

namespace Alike

variable {R : α → β → Prop}

theorem pure {a : α} {b : β} (h : R a b) :
    Alike R (Pure.pure a : Except ε α) (Pure.pure b : Except ε β) :=
  .inr ⟨a, b, rfl, rfl, h⟩

theorem bind {γ : Type} {p : Except ε γ} {x : γ → Except ε α} {y : γ → Except ε β}
    (h : ∀ c, p = .ok c → Alike R (x c) (y c)) : Alike R (p >>= x) (p >>= y) := by
  cases p with
  | error e => exact .inl ⟨e, e, rfl, rfl⟩
  | ok c => exact h c rfl

end Alike

end Lib
