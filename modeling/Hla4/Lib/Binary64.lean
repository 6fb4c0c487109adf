/-
# `Hla4.Lib.Binary64` — rounding to the nearest double

A finite double is a multiple of a power of two, its LAST PLACE: 52 binary places
below its leading bit, and never below `2^-1074`.  A rational is rounded to the
nearest multiple of its last place, ties to the even one.

    nearestEven q   the nearest integer, ties to even
    onGrid e q      the nearest multiple of `2^e`
    lastPlace q     the exponent of the last place of the doubles around `q`
    nearest q       the nearest double, the range of the exponents unbounded above

What a comparison of sums needs is that rounding keeps the order
(`nearest_mono`).  On one grid it does; where the grids of two numbers differ, a
power of two stands between them that is on both.
-/
import Mathlib.Data.Int.Log
import Mathlib.Data.Rat.Floor
import Mathlib.Tactic.Linarith

namespace Lib.Binary64

variable {x y : ℚ}

def nearestEven (q : ℚ) : ℤ :=
  if q - ⌊q⌋ < 1 / 2 then ⌊q⌋
  else if 1 / 2 < q - ⌊q⌋ then ⌊q⌋ + 1
  else if 2 ∣ ⌊q⌋ then ⌊q⌋ else ⌊q⌋ + 1

def onGrid (e : ℤ) (q : ℚ) : ℚ := nearestEven (q / 2 ^ e) * 2 ^ e

def lastPlace (q : ℚ) : ℤ := max (Int.log 2 |q| - 52) (-1074)

def nearest (q : ℚ) : ℚ := onGrid (lastPlace q) q

/-! ## One grid -/

theorem floor_le_nearestEven (q : ℚ) : ⌊q⌋ ≤ nearestEven q := by
  unfold nearestEven
  split_ifs <;> omega

theorem nearestEven_le_floor_add_one (q : ℚ) : nearestEven q ≤ ⌊q⌋ + 1 := by
  unfold nearestEven
  split_ifs <;> omega

@[simp] theorem nearestEven_intCast (n : ℤ) : nearestEven n = n := by
  simp [nearestEven]

theorem nearestEven_mono (h : x ≤ y) : nearestEven x ≤ nearestEven y := by
  rcases (Int.floor_le_floor h).lt_or_eq with hlt | heq
  · have hx := nearestEven_le_floor_add_one x
    have hy := floor_le_nearestEven y
    omega
  · -- between the same two integers the three cases come in order
    unfold nearestEven
    rw [heq]
    split_ifs <;> first | omega | linarith

theorem nearestEven_neg (q : ℚ) : nearestEven (-q) = -nearestEven q := by
  rcases eq_or_ne (q : ℚ) ⌊q⌋ with hq | hq
  · rw [hq, ← Int.cast_neg, nearestEven_intCast, nearestEven_intCast]
  · have hlt : (⌊q⌋ : ℚ) < q := lt_of_le_of_ne (Int.floor_le q) hq.symm
    have hfloor : ⌊-q⌋ = -⌊q⌋ - 1 := by
      rw [Int.floor_eq_iff]
      push_cast
      constructor
      · linarith [Int.lt_floor_add_one q]
      · linarith
    unfold nearestEven
    rw [hfloor]
    push_cast
    split_ifs <;> first | omega | linarith

theorem onGrid_mono (e : ℤ) (h : x ≤ y) : onGrid e x ≤ onGrid e y := by
  have hpos : (0 : ℚ) < 2 ^ e := zpow_pos two_pos e
  refine mul_le_mul_of_nonneg_right ?_ hpos.le
  exact_mod_cast nearestEven_mono (div_le_div_of_nonneg_right h hpos.le)

theorem onGrid_neg (e : ℤ) (q : ℚ) : onGrid e (-q) = -onGrid e q := by
  rw [onGrid, onGrid, neg_div, nearestEven_neg, Int.cast_neg, neg_mul]

/-- A power of two is on every grid that is no coarser. -/
theorem onGrid_two_zpow {e k : ℤ} (h : e ≤ k) : onGrid e (2 ^ k) = 2 ^ k := by
  have hne : (2 : ℚ) ≠ 0 := by norm_num
  obtain ⟨n, rfl⟩ := Int.le.dest h
  have hn : (2 : ℚ) ^ (e + n) / 2 ^ e = ((2 ^ n : ℤ) : ℚ) := by
    rw [zpow_add₀ hne, mul_div_cancel_left₀ _ (zpow_ne_zero e hne)]
    push_cast
    exact zpow_natCast 2 n
  rw [onGrid, hn, nearestEven_intCast, ← hn, div_mul_cancel₀ _ (zpow_ne_zero e hne)]

/-! ## All of them -/

theorem nearest_neg (q : ℚ) : nearest (-q) = -nearest q := by
  rw [nearest, nearest, lastPlace, abs_neg, onGrid_neg]
  rfl

theorem nearest_nonneg (h : 0 ≤ x) : 0 ≤ nearest x := by
  have hzero : onGrid (lastPlace x) 0 = 0 := by simp [onGrid, nearestEven]
  exact hzero ▸ onGrid_mono (lastPlace x) h

theorem nearest_mono_of_pos (hx : 0 < x) (h : x ≤ y) : nearest x ≤ nearest y := by
  have hlog : Int.log 2 |x| ≤ Int.log 2 |y| := by
    rw [abs_of_pos hx, abs_of_pos (hx.trans_le h)]
    exact Int.log_mono_right hx h
  rcases eq_or_ne (lastPlace x) (lastPlace y) with heq | hne
  · rw [nearest, nearest, heq]
    exact onGrid_mono _ h
  · -- `2^k`, the leading place of `y`, is above `x` and on both grids
    unfold lastPlace at hne
    have hcoarse : lastPlace y = Int.log 2 |y| - 52 := by unfold lastPlace; omega
    have hfine : lastPlace x ≤ Int.log 2 |y| := by unfold lastPlace; omega
    have hstep : Int.log 2 |x| + 1 ≤ Int.log 2 |y| := by omega
    rw [abs_of_pos (hx.trans_le h)] at hcoarse hfine hstep
    have hxk : x ≤ 2 ^ Int.log 2 y := by
      rw [abs_of_pos hx] at hstep
      calc x ≤ ((2 : ℕ) : ℚ) ^ (Int.log 2 x + 1) := (Int.lt_zpow_succ_log_self Nat.one_lt_two x).le
        _ ≤ 2 ^ Int.log 2 y := zpow_le_zpow_right₀ one_le_two hstep
    have hky : (2 : ℚ) ^ Int.log 2 y ≤ y :=
      Int.zpow_log_le_self Nat.one_lt_two (hx.trans_le h)
    calc nearest x ≤ onGrid (lastPlace x) (2 ^ Int.log 2 y) := onGrid_mono _ hxk
      _ = 2 ^ Int.log 2 y := onGrid_two_zpow hfine
      _ = onGrid (lastPlace y) (2 ^ Int.log 2 y) := (onGrid_two_zpow (by omega)).symm
      _ ≤ nearest y := onGrid_mono _ hky

/-- **Rounding keeps the order.** -/
theorem nearest_mono (h : x ≤ y) : nearest x ≤ nearest y := by
  rcases lt_or_ge 0 x with hx | hx
  · exact nearest_mono_of_pos hx h
  rcases lt_or_ge y 0 with hy | hy
  · have := nearest_mono_of_pos (neg_pos.mpr hy) (neg_le_neg h)
    rwa [nearest_neg, nearest_neg, neg_le_neg_iff] at this
  · have hx' := nearest_nonneg (neg_nonneg.mpr hx)
    rw [nearest_neg] at hx'
    exact (neg_nonneg.mp hx').trans (nearest_nonneg hy)

end Lib.Binary64
