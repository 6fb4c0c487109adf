/-
# `Hla4.Lib.Loop` — loops without a bound

A loop or a recursion that may not end is a function of fuel, `none` when the
fuel gives out.  It RETURNS a value when it has that value from some fuel on.

    whileLet body fuel s current    while let Some(a) = current, do `body`
    exhaust next fuel it            what an iterator yields before it yields nothing

Where they follow a partial function that lowers a rank they return, and the way
up (`ancestors`) is what they go through.  `visiting` keeps the list of what a
loop or a recursion has been to.
-/
import Hla4.Lib.Forest

namespace Lib

variable {α σ ρ : Type}

/-- The run has the value `r`, from some fuel on. -/
def Returns (run : Nat → Option ρ) (r : ρ) : Prop := ∃ n, ∀ fuel, n ≤ fuel → run fuel = some r

/-- `body` does one round: the state after it, and what to go on with. -/
def whileLet (body : σ → α → σ × Option α) : Nat → σ → Option α → Option σ
  | 0, _, _ => none
  | _ + 1, s, none => some s
  | fuel + 1, s, some a => whileLet body fuel (body s a).1 (body s a).2

/-- `next` yields an item and the iterator after it. -/
def exhaust (next : σ → Option (α × σ)) : Nat → σ → Option (List α)
  | 0, _ => none
  | fuel + 1, it =>
    match next it with
    | none => some []
    | some (a, it) => (exhaust next fuel it).map (a :: ·)

/-- Do `f`, and note what it was done to. -/
def visiting (f : σ → α → σ) (s : σ × List α) (a : α) : σ × List α := (f s.1 a, s.2 ++ [a])

theorem foldl_visiting (f : σ → α → σ) (l : List α) (s : σ × List α) :
    l.foldl (visiting f) s = (l.foldl f s.1, s.2 ++ l) := by
  induction l generalizing s with
  | nil => rw [List.append_nil]; rfl
  | cons a l ih => rw [List.foldl_cons, ih, visiting, List.append_assoc]; rfl

section Exhaust

variable {next : σ → Option (α × σ)} {it it' : σ} {a : α} {fuel : Nat}

theorem exhaust_of_none (h : next it = none) : exhaust next (fuel + 1) it = some [] := by
  rw [exhaust, h]

theorem exhaust_of_some (h : next it = some (a, it')) :
    exhaust next (fuel + 1) it = (exhaust next fuel it').map (a :: ·) := by
  rw [exhaust, h]

end Exhaust

section Ranked

variable {next : α → Option α} {rank : α → Nat} (hdec : ∀ x y, next x = some y → rank y < rank x)
  {fuel fuel' : Nat} {x : α}

include hdec

/-- A loop that goes on with `next` does its round for every node met; one more
round finds nothing to go on with. -/
theorem whileLet_ancestors (f : σ → α → σ) (hfuel : rank x < fuel) (hlt : fuel < fuel') (s : σ) :
    whileLet (fun s a => (f s a, next a)) fuel' s (some x) =
      some ((ancestors next fuel x).foldl f s) := by
  induction fuel generalizing fuel' x s with
  | zero => omega
  | succ fuel ih =>
    obtain ⟨n, rfl⟩ : ∃ n, fuel' = n + 2 := ⟨fuel' - 2, by omega⟩
    rw [whileLet, ancestors, List.foldl_cons]
    cases hn : next x with
    | none => rfl
    | some y =>
      have hrank := hdec x y hn
      exact ih (by omega) (by omega) (f s x)

/-- An iterator that holds the node it yields next, or nothing: on the nodes in
`P` it yields the node and goes on with `next`. -/
theorem exhaust_ancestors {step : Option α → Option (α × Option α)} (hnone : step none = none)
    {P : α → Prop} (hstep : ∀ x, P x → step (some x) = some (x, next x))
    (hP : ∀ x y, P x → next x = some y → P y) (hx : P x) (hfuel : rank x < fuel)
    (hlt : fuel < fuel') : exhaust step fuel' (some x) = some (ancestors next fuel x) := by
  induction fuel generalizing fuel' x with
  | zero => omega
  | succ fuel ih =>
    obtain ⟨n, rfl⟩ : ∃ n, fuel' = n + 2 := ⟨fuel' - 2, by omega⟩
    rw [exhaust_of_some (hstep x hx), ancestors]
    cases hn : next x with
    | none => rw [exhaust_of_none hnone, Option.map_some]
    | some y =>
      have hrank := hdec x y hn
      rw [ih (hP x y hx hn) (by omega) (by omega), Option.map_some]

end Ranked

end Lib
