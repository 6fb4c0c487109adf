/-
# `Hla4.Lib.Utf16` — UTF-16

A character below 0x10000 is one unit.  Any other is a pair of surrogates: of
the 20 bits above 0x10000 the upper ten are added to 0xD800 and the lower ten
to 0xDC00.  No character lies in the range of the surrogates, so a unit tells
which of the three it is, and the units of a text are read back as it
(`decodeUtf16_encodeUtf16`).
-/
import Mathlib.Data.List.Basic

namespace Lib

/-- The units of one character. -/
def utf16Units (c : Char) : List UInt16 :=
  if c.toNat < 0x10000 then [.ofNat c.toNat]
  else [.ofNat (0xD800 + (c.toNat - 0x10000) / 0x400), .ofNat (0xDC00 + (c.toNat - 0x10000) % 0x400)]

def encodeUtf16 (text : List Char) : List UInt16 := text.flatMap utf16Units

/-- The text, or `none` at a surrogate without its other half. -/
def decodeUtf16 : List UInt16 → Option (List Char)
  | [] => some []
  | u :: units =>
    if u.toNat < 0xD800 ∨ 0xDFFF < u.toNat then
      (decodeUtf16 units).map (Char.ofNat u.toNat :: ·)
    else if 0xDC00 ≤ u.toNat then none
    else
      match units with
      | [] => none
      | u₂ :: units =>
        if u₂.toNat < 0xDC00 ∨ 0xDFFF < u₂.toNat then none
        else
          (decodeUtf16 units).map
            (Char.ofNat (0x10000 + (u.toNat - 0xD800) * 0x400 + (u₂.toNat - 0xDC00)) :: ·)

theorem toNat_unit {n : Nat} (h : n < 0x10000) : (UInt16.ofNat n).toNat = n :=
  UInt16.toNat_ofNat_of_lt' h

/-- The units of a character are read as it, whatever follows. -/
theorem decodeUtf16_units (c : Char) (units : List UInt16) :
    decodeUtf16 (utf16Units c ++ units) = (decodeUtf16 units).map (c :: ·) := by
  have hvalid : c.toNat < 0xD800 ∨ 0xDFFF < c.toNat ∧ c.toNat < 0x110000 := c.valid
  unfold utf16Units
  split
  · rename_i hone
    rw [List.singleton_append, decodeUtf16.eq_def]
    dsimp only
    rw [toNat_unit hone, if_pos (by omega), Char.ofNat_toNat]
  · rename_i hpair
    have hhigh : (UInt16.ofNat (0xD800 + (c.toNat - 0x10000) / 0x400)).toNat =
        0xD800 + (c.toNat - 0x10000) / 0x400 := toNat_unit (by omega)
    have hlow : (UInt16.ofNat (0xDC00 + (c.toNat - 0x10000) % 0x400)).toNat =
        0xDC00 + (c.toNat - 0x10000) % 0x400 := toNat_unit (by omega)
    have hchar : 0x10000 + (0xD800 + (c.toNat - 0x10000) / 0x400 - 0xD800) * 0x400 +
        (0xDC00 + (c.toNat - 0x10000) % 0x400 - 0xDC00) = c.toNat := by omega
    rw [List.cons_append, List.singleton_append, decodeUtf16, hhigh, hlow, if_neg (by omega),
      if_neg (by omega), if_neg (by omega), hchar, Char.ofNat_toNat]

theorem decodeUtf16_encodeUtf16 (text : List Char) : decodeUtf16 (encodeUtf16 text) = some text := by
  induction text with
  | nil => rfl
  | cons c text ih =>
    rw [encodeUtf16, List.flatMap_cons, decodeUtf16_units]
    show (decodeUtf16 (encodeUtf16 text)).map _ = _
    rw [ih]
    rfl

end Lib
