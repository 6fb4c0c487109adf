/-
# `Hla4.Core` — handles and logical times

The types of `hla-core` that the server is written in: eight opaque handles
over `u32` or `u64`, and the 64-bit floats that carry logical time.

**Floats.**  `F64` is the set of VALUES of an IEEE 754 double: NaN, the two
infinities, and the finite numbers as exact rationals (the two zeros, which
compare equal, are one value; so are the NaNs, which compare false with
everything).  `F64.ofBits` reads the bit pattern off the wire.  Comparisons are
the IEEE ones, and the one sum the server forms, `current_time + lookahead`, is
rounded to the nearest double (`Timestamp.ofSum`).

**Stored times.**  The server stores a time only after checking it
(`v.is_finite()`), so the times in a federate's state are rationals; a message
is queued only when its timestamp exceeds a rational, so the timestamps in a
queue are rationals or `+∞`, the linear order `Timestamp`.
-/
import Hla4.Lib.Binary64
import Hla4.Lib.Conservative

namespace Hla4

/-! ## Handles -/

structure ObjectClassHandle where
  raw : UInt32
deriving DecidableEq

structure AttributeHandle where
  raw : UInt32
deriving DecidableEq

structure InteractionClassHandle where
  raw : UInt32
deriving DecidableEq

structure ParameterHandle where
  raw : UInt32
deriving DecidableEq

structure ObjectInstanceHandle where
  raw : UInt64
deriving DecidableEq

structure FederateHandle where
  raw : UInt32
deriving DecidableEq

structure DimensionHandle where
  raw : UInt32
deriving DecidableEq

structure RegionHandle where
  raw : UInt64
deriving DecidableEq

/-- Resign actions, IEEE 1516.1-2025 §4.10. -/
inductive ResignAction
  | unconditionallyDivestAttributes
  | deleteObjects
  | cancelPendingOwnershipAcquisitions
  | deleteObjectsThenDivest
  | cancelThenDeleteThenDivest
  | noAction
deriving DecidableEq

/-- Opaque bytes, as protobuf carries them. -/
abbrev Bytes := List UInt8

/-- The number written big-endian in `bytes`. -/
def bigEndian (bytes : Bytes) : Nat := bytes.foldl (fun n b => n * 256 + b.toNat) 0

/-! ## 64-bit floats -/

/-- The value of an IEEE 754 double. -/
inductive F64
  | nan
  | negInf
  | fin (q : ℚ)
  | posInf
deriving DecidableEq

namespace F64

/-- The value of a 64-bit pattern: sign, 11 exponent bits, 52 mantissa bits. -/
def ofBits (bits : Nat) : F64 :=
  let sign := bits / 2 ^ 63 % 2
  let exponent := bits / 2 ^ 52 % 2 ^ 11
  let mantissa := bits % 2 ^ 52
  if exponent = 2047 then
    if mantissa = 0 then (if sign = 1 then negInf else posInf) else nan
  else
    -- subnormals have no implicit bit and the exponent of the smallest normals
    let significand := if exponent = 0 then mantissa else mantissa + 2 ^ 52
    let scale := max exponent 1
    let magnitude : ℚ :=
      if 1075 ≤ scale then ((significand * 2 ^ (scale - 1075) : Nat) : ℚ)
      else mkRat significand (2 ^ (1075 - scale))
    fin (if sign = 1 then -magnitude else magnitude)

/-- `v.is_finite()`, with the number when it is. -/
def finite? : F64 → Option ℚ
  | fin q => some q
  | _ => none

/-- IEEE `<`: false when either side is NaN. -/
def lt : F64 → F64 → Bool
  | fin a, fin b => decide (a < b)
  | negInf, fin _ => true
  | negInf, posInf => true
  | fin _, posInf => true
  | _, _ => false

/-- IEEE `<=`: false when either side is NaN. -/
def le : F64 → F64 → Bool
  | fin a, fin b => decide (a ≤ b)
  | negInf, negInf => true
  | posInf, posInf => true
  | negInf, fin _ => true
  | negInf, posInf => true
  | fin _, posInf => true
  | _, _ => false

instance : LT F64 := ⟨fun a b => a.lt b = true⟩
instance : LE F64 := ⟨fun a b => a.le b = true⟩
instance (a b : F64) : Decidable (a < b) := inferInstanceAs (Decidable (a.lt b = true))
instance (a b : F64) : Decidable (a ≤ b) := inferInstanceAs (Decidable (a.le b = true))

@[simp] theorem fin_lt_fin {a b : ℚ} : fin a < fin b ↔ a < b := by
  exact decide_eq_true_iff

@[simp] theorem fin_le_fin {a b : ℚ} : fin a ≤ fin b ↔ a ≤ b := by
  exact decide_eq_true_iff

theorem fin_le_of_lt {a : ℚ} {v : F64} (h : fin a < v) : fin a ≤ v := by
  cases v with
  | nan => cases h
  | negInf => cases h
  | posInf => rfl
  | fin => exact fin_le_fin.mpr (fin_lt_fin.mp h).le

end F64

/-- The timestamps a queue can hold: finite, or `+∞`. -/
abbrev Timestamp := WithTop ℚ

namespace Timestamp

/-- The float a queued timestamp is. -/
def toF64 : Timestamp → F64
  | ⊤ => .posInf
  | (q : ℚ) => .fin q

theorem fin_lt_toF64 {q : ℚ} {t : Timestamp} : F64.fin q < t.toF64 ↔ (q : Timestamp) < t := by
  induction t using WithTop.recTopCoe with
  | top => exact ⟨fun _ => WithTop.coe_lt_top q, fun _ => rfl⟩
  | coe => exact F64.fin_lt_fin.trans WithTop.coe_lt_coe.symm

/-- Only NaN is neither below a timestamp nor at least every number up to it. -/
theorem lt_toF64_or_ge {v : F64} (hv : v ≠ .nan) {q : ℚ} {t : Timestamp} (hq : (q : Timestamp) ≤ t) :
    v < t.toF64 ∨ F64.fin q ≤ v := by
  induction t using WithTop.recTopCoe with
  | top =>
    cases v with
    | nan => exact absurd rfl hv
    | posInf => exact .inr rfl
    | negInf | fin => exact .inl rfl
  | coe r =>
    cases v with
    | nan => exact absurd rfl hv
    | negInf => exact .inl rfl
    | posInf => exact .inr rfl
    | fin u =>
      exact (lt_or_ge u r).imp F64.fin_lt_fin.mpr fun hu =>
        F64.fin_le_fin.mpr ((WithTop.coe_le_coe.mp hq).trans hu)

/-- `a + b` of two finite doubles: the nearest double, and `+∞` from `2^1024` on.
With a lookahead for `b` the sum is not below the least double. -/
def ofSum (a b : ℚ) : Timestamp :=
  let sum := Lib.Binary64.nearest (a + b)
  if ((2 ^ 1024 : Nat) : ℚ) ≤ sum then ⊤ else sum

theorem ofSum_mono {a a' : ℚ} (b : ℚ) (h : a ≤ a') : ofSum a b ≤ ofSum a' b := by
  have hle := Lib.Binary64.nearest_mono (add_le_add_left h b)
  unfold ofSum
  dsimp only
  split
  · next htop => rw [if_pos (htop.trans hle)]
  · split
    · exact le_top
    · exact WithTop.coe_le_coe.mpr hle

end Timestamp

instance : Lib.Lookahead ℚ := ⟨Timestamp.ofSum, Timestamp.ofSum_mono⟩

/-- Ties go to the even double, and a sum beyond the largest double is `+∞`. -/
example : (Timestamp.ofSum (2 ^ 53) 1, Timestamp.ofSum (2 ^ 53 + 2) 1,
    Timestamp.ofSum (2 ^ 1024 - 2 ^ 971) (2 ^ 970)) =
      (((2 ^ 53 : ℚ) : Timestamp), ((2 ^ 53 + 4 : ℚ) : Timestamp), ⊤) := by
  decide +kernel

/-- `v > now`, with the timestamp `v` then is. -/
def F64.above (v : F64) (now : ℚ) : Option { t : Timestamp // v = t.toF64 } :=
  match v with
  | .fin q => if now < q then some ⟨(q : Timestamp), rfl⟩ else none
  | .posInf => some ⟨⊤, rfl⟩
  | .negInf => none
  | .nan => none

theorem F64.above_eq_some {v : F64} {now : ℚ} {t : { t : Timestamp // v = t.toF64 }} :
    v.above now = some t ↔ (now : Timestamp) < t.1 := by
  obtain ⟨t, rfl⟩ := t
  induction t using WithTop.recTopCoe with
  | top => exact ⟨fun _ => WithTop.coe_lt_top now, fun _ => rfl⟩
  | coe q =>
    show (if now < q then some _ else none) = some _ ↔ (now : Timestamp) < (q : Timestamp)
    rw [WithTop.coe_lt_coe]
    split
    · next h => exact ⟨fun _ => h, fun _ => rfl⟩
    · next h => exact ⟨fun e => (nomatch e), fun hlt => absurd hlt h⟩

theorem F64.above_eq_none {v : F64} {now : ℚ} : v.above now = none ↔ ¬ F64.fin now < v := by
  cases v with
  | nan | negInf => exact ⟨fun _ => Bool.false_ne_true, fun _ => rfl⟩
  | posInf => exact ⟨fun h => (nomatch h), fun h => absurd rfl h⟩
  | fin =>
    rw [F64.fin_lt_fin]
    simp only [above]
    split <;> simp_all

/-- The big-endian encoding of 1.5 is read back. -/
example : F64.ofBits (bigEndian [0x3F, 0xF8, 0, 0, 0, 0, 0, 0]) = .fin (3 / 2) := by
  decide +kernel

end Hla4
