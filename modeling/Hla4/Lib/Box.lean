/-
# `Hla4.Lib.Box` — boxes with ranges on some dimensions

A box gives closed ranges to some of the dimensions and leaves the others free.
Its points are the assignments of a coordinate to EVERY dimension that keep the
ranges.

    points b     the points of the box
    Proper b     no range is upside down
    Meets b b'   on the dimensions both have, each range starts before the other
                 ends

Two proper boxes have a point in common exactly if they meet
(`points_inter_iff`): the corner of the larger lower bounds is one.  A box that is
not proper has no points and may meet another all the same, so the condition
cannot be left out.
-/
import Mathlib.Order.Lattice

namespace Lib

/-- Ranges on some dimensions. -/
abbrev Box (ι α : Type) := ι → Option (α × α)

namespace Box

variable {ι α : Type} [LinearOrder α] {b b' : Box ι α}

/-- The points of a box. -/
def points (b : Box ι α) : Set (ι → α) :=
  {x | ∀ d l u, b d = some (l, u) → l ≤ x d ∧ x d ≤ u}

/-- No range is upside down. -/
def Proper (b : Box ι α) : Prop := ∀ d l u, b d = some (l, u) → l ≤ u

/-- The ranges meet on every dimension both boxes have. -/
def Meets (b b' : Box ι α) : Prop :=
  ∀ d l u l' u', b d = some (l, u) → b' d = some (l', u') → l ≤ u' ∧ l' ≤ u

theorem Meets.symm (h : b.Meets b') : b'.Meets b :=
  fun d l u l' u' hd hd' => (h d l' u' l u hd' hd).symm

/-- The larger of the lower bounds on every dimension, `a` on a dimension neither
box has. -/
def corner (b b' : Box ι α) (a : α) (d : ι) : α :=
  match b d, b' d with
  | some r, some r' => max r.1 r'.1
  | some r, none => r.1
  | none, some r' => r'.1
  | none, none => a

theorem corner_mem (hb : b.Proper) (h : b.Meets b') (a : α) : corner b b' a ∈ b.points := by
  intro d l u hd
  have hlu := hb d l u hd
  rw [corner, hd]
  cases hd' : b' d with
  | none => exact ⟨le_rfl, hlu⟩
  | some r' => exact ⟨le_max_left _ _, max_le hlu (h d l u r'.1 r'.2 hd hd').2⟩

theorem corner_comm (b b' : Box ι α) (a : α) : corner b b' a = corner b' b a := by
  funext d
  rw [corner, corner]
  cases b d with
  | none => cases b' d <;> rfl
  | some =>
    cases b' d with
    | none => rfl
    | some => exact max_comm _ _

/-- **Two proper boxes have a point in common exactly if they meet.** -/
theorem points_inter_iff [Inhabited α] (hb : b.Proper) (hb' : b'.Proper) :
    (∃ x, x ∈ b.points ∧ x ∈ b'.points) ↔ b.Meets b' := by
  constructor
  · rintro ⟨x, hx, hx'⟩ d l u l' u' hd hd'
    have hin := hx d l u hd
    have hin' := hx' d l' u' hd'
    exact ⟨hin.1.trans hin'.2, hin'.1.trans hin.2⟩
  · intro h
    refine ⟨corner b b' default, corner_mem hb h default, ?_⟩
    rw [corner_comm]
    exact corner_mem hb' h.symm default

end Box

end Lib
