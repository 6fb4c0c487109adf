/-
# `Hla4.Lib.Edges` — telling of a level by its edges

A level goes up and down.  A listener is not told the level, only of the steps at
which it changed: `true` when it went up, `false` when it went down.  If the
listener starts while the level is down and is told of every change and of
nothing else, what it has been told alternates, beginning with `true`, and the
last of it is the level (`Follows.edge`).
-/
import Mathlib.Data.List.Basic

namespace Lib

/-- What a listener is told when the level goes from `before` to `after`. -/
def edge (before after : Bool) : List Bool := if before = after then [] else [after]

@[simp] theorem edge_self (b : Bool) : edge b b = [] := if_pos rfl

theorem edge_of_rise {before after : Bool} (h : before = true → after = true) :
    edge before after = if !before && after then [true] else [] := by
  cases before <;> cases after <;> simp_all [edge]

theorem edge_of_fall {before after : Bool} (h : after = true → before = true) :
    edge before after = if before && !after then [false] else [] := by
  cases before <;> cases after <;> simp_all [edge]

/-- The list alternates, beginning with `first`. -/
def Alternates : Bool → List Bool → Prop
  | _, [] => True
  | first, b :: l => b = first ∧ Alternates (!first) l

/-- The last of the list, or `start` if there is none. -/
def latest : Bool → List Bool → Bool
  | start, [] => start
  | _, b :: l => latest b l

theorem latest_concat (start b : Bool) (l : List Bool) : latest start (l ++ [b]) = b := by
  induction l generalizing start with
  | nil => rfl
  | cons x l ih => exact ih x

/-- The list alternates beginning with `true`, and the last of it is the level. -/
structure Follows (l : List Bool) (level : Bool) : Prop where
  alternates : Alternates true l
  latest : latest false l = level

/-- One more goes at the end if it is not what came last. -/
theorem Alternates.concat {first b : Bool} {l : List Bool} (h : Alternates first l)
    (hb : b = !(Lib.latest (!first) l)) : Alternates first (l ++ [b]) := by
  induction l generalizing first with
  | nil => exact ⟨hb.trans (Bool.not_not first), trivial⟩
  | cons x l ih =>
    obtain ⟨rfl, h⟩ := h
    refine ⟨rfl, ih h ?_⟩
    rw [Bool.not_not]
    exact hb

namespace Follows

theorem start : Follows [] false := ⟨trivial, rfl⟩

/-- **Told of every change.** -/
theorem edge {l : List Bool} {before after : Bool} (h : Follows l before) :
    Follows (l ++ Lib.edge before after) after := by
  rw [Lib.edge]
  split
  · next he =>
      rw [List.append_nil]
      exact he ▸ h
  · next hne =>
      refine ⟨h.alternates.concat ?_, ?_⟩
      · rw [show Lib.latest (!true) l = before from h.latest]
        cases before <;> cases after <;> simp_all
      · exact latest_concat false after l

end Follows

end Lib
