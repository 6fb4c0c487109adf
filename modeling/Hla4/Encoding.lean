/-
# `Hla4.Encoding` — the standard data types on the wire

The crate `hla-encoding`: nine types and how their values are written, all
big-endian.

    HLAinteger16BE, 32BE, 64BE     the two's complement
    HLAfloat32BE, 64BE             the bits
    HLAoctet                       itself
    HLAboolean                     0 or 1, as an HLAinteger32BE
    HLAunicodeString               the number of UTF-16 units, then the units
    HLAopaqueData                  the number of bytes, then the bytes

The count in front of a string counts units, not bytes and not characters.
Each encoding ends by itself, so that values of any of the types can be written
one after another and read back with the types alone (`elements_read_back`).
-/
import Hla4.Lib.Delimited
import Hla4.Lib.Utf16
import Hla4.Wire.Framing

namespace Hla4

open Lib

/-- `u16::to_be_bytes` -/
def toBe16 (n : UInt16) : Bytes := beBytes 2 n.toNat

/-- `u16::from_be_bytes` -/
def fromBe16 (bytes : Bytes) : UInt16 := .ofNat (bigEndian bytes)

@[simp] theorem length_toBe16 (n : UInt16) : (toBe16 n).length = 2 := length_beBytes 2 _

@[simp] theorem fromBe16_toBe16 (n : UInt16) : fromBe16 (toBe16 n) = n := by
  have hlt : n.toNat < 256 ^ 2 := n.toNat_lt
  rw [fromBe16, toBe16, bigEndian_beBytes, Nat.mod_eq_of_lt hlt, UInt16.ofNat_toNat]

/-! ## The types -/

inductive EncodingError
  | truncated (needed had : Nat)
  | utf16
deriving DecidableEq

class DataElement (α : Type) where
  encodedLength : α → Nat
  encodeInto : α → Bytes → Bytes
  decodeFrom : Bytes → Except EncodingError (α × Nat)

open DataElement

def toBytes {α : Type} [DataElement α] (a : α) : Bytes := encodeInto a []

/-- What `impl_be_primitive!` takes: a width, and the two conversions of a type
of that width. -/
class BePrimitive (α : Type) where
  bytes : Nat
  toBeBytes : α → Bytes
  fromBeBytes : Bytes → α
  length_toBeBytes : ∀ a, (toBeBytes a).length = bytes
  fromBeBytes_toBeBytes : ∀ a, fromBeBytes (toBeBytes a) = a

open BePrimitive

/-- `impl_be_primitive!` -/
instance BePrimitive.dataElement {α : Type} [BePrimitive α] : DataElement α where
  encodedLength _ := bytes α
  encodeInto a buf := buf ++ toBeBytes a
  decodeFrom buf :=
    if buf.length < bytes α then .error (.truncated (bytes α) buf.length)
    else .ok (fromBeBytes (buf.take (bytes α)), bytes α)

structure HLAinteger16BE where
  value : Int16

structure HLAinteger32BE where
  value : Int32

structure HLAinteger64BE where
  value : Int64

/-- A float is its bits. -/
structure HLAfloat32BE where
  bits : UInt32

structure HLAfloat64BE where
  bits : UInt64

structure HLAoctet where
  value : UInt8

structure HLAboolean where
  value : Bool

structure HLAunicodeString where
  value : String

structure HLAopaqueData where
  value : Bytes

instance HLAinteger16BE.bePrimitive : BePrimitive HLAinteger16BE where
  bytes := 2
  toBeBytes a := toBe16 a.value.toUInt16
  fromBeBytes b := ⟨(fromBe16 b).toInt16⟩
  length_toBeBytes _ := length_toBe16 _
  fromBeBytes_toBeBytes a := by simp

instance HLAinteger32BE.bePrimitive : BePrimitive HLAinteger32BE where
  bytes := 4
  toBeBytes a := toBe32 a.value.toUInt32
  fromBeBytes b := ⟨(fromBe32 b).toInt32⟩
  length_toBeBytes _ := length_toBe32 _
  fromBeBytes_toBeBytes a := by simp

instance HLAinteger64BE.bePrimitive : BePrimitive HLAinteger64BE where
  bytes := 8
  toBeBytes a := toBe64 a.value.toUInt64
  fromBeBytes b := ⟨(fromBe64 b).toInt64⟩
  length_toBeBytes _ := length_toBe64 _
  fromBeBytes_toBeBytes a := by simp

instance HLAfloat32BE.bePrimitive : BePrimitive HLAfloat32BE where
  bytes := 4
  toBeBytes a := toBe32 a.bits
  fromBeBytes b := ⟨fromBe32 b⟩
  length_toBeBytes _ := length_toBe32 _
  fromBeBytes_toBeBytes a := by simp

instance HLAfloat64BE.bePrimitive : BePrimitive HLAfloat64BE where
  bytes := 8
  toBeBytes a := toBe64 a.bits
  fromBeBytes b := ⟨fromBe64 b⟩
  length_toBeBytes _ := length_toBe64 _
  fromBeBytes_toBeBytes a := by simp

instance HLAoctet.dataElement : DataElement HLAoctet where
  encodedLength _ := 1
  encodeInto a buf := buf ++ [a.value]
  decodeFrom
    | [] => .error (.truncated 1 0)
    | b :: _ => .ok (⟨b⟩, 1)

/-- `bool as i32` -/
def boolAsI32 (b : Bool) : Int32 := if b then 1 else 0

instance HLAboolean.dataElement : DataElement HLAboolean where
  encodedLength _ := 4
  encodeInto a buf := buf ++ toBe32 (boolAsI32 a.value).toUInt32
  decodeFrom buf := do
    let (v, n) ← (decodeFrom buf : Except EncodingError (HLAinteger32BE × Nat))
    pure (⟨v.value ≠ 0⟩, n)

/-- How a string and opaque data are read: a count, which says how many bytes
are needed, and then what `body` makes of the buffer. -/
def decodeCounted {α : Type} (need : Nat → Nat) (body : Nat → Bytes → Except EncodingError α)
    (buf : Bytes) : Except EncodingError (α × Nat) :=
  if buf.length < 4 then .error (.truncated 4 buf.length)
  else
    let n := (fromBe32 (buf.take 4)).toNat
    if buf.length < need n then .error (.truncated (need n) buf.length)
    else (body n buf).map (·, need n)

instance HLAunicodeString.dataElement : DataElement HLAunicodeString where
  encodedLength a := 4 + (encodeUtf16 a.value.toList).length * 2
  encodeInto a buf :=
    let utf16 := encodeUtf16 a.value.toList
    buf ++ toBe32 (.ofNat utf16.length) ++ utf16.flatMap toBe16
  decodeFrom := decodeCounted (fun n => 4 + n * 2) fun n buf =>
    -- unit `i` is the two bytes from `4 + 2 * i`
    match decodeUtf16 ((List.range n).map fun i => fromBe16 ((buf.drop (4 + 2 * i)).take 2)) with
    | none => .error .utf16
    | some text => .ok ⟨.ofList text⟩

instance HLAopaqueData.dataElement : DataElement HLAopaqueData where
  encodedLength a := 4 + a.value.length
  encodeInto a buf := buf ++ toBe32 (.ofNat a.value.length) ++ a.value
  decodeFrom := decodeCounted (fun n => 4 + n) fun n buf => .ok ⟨slice buf 4 (4 + n)⟩

/-! ## One value -/

/-- A value is appended in `encodedLength` bytes, which end by themselves. -/
structure EndsByItself {α : Type} [DataElement α] (a : α) : Prop where
  appends : ∀ buf, encodeInto a buf = buf ++ toBytes a
  length : (toBytes a).length = encodedLength a
  delimits : Delimits decodeFrom (toBytes a) a

theorem length_lt_of_part {part word : Bytes} (h : part <+: word) (hne : part ≠ word) :
    part.length < word.length :=
  lt_of_le_of_ne h.length_le fun he => hne (h.eq_of_length he)

theorem BePrimitive.endsByItself {α : Type} [BePrimitive α] (a : α) : EndsByItself a := by
  have hbytes : toBytes a = toBeBytes a := rfl
  have hlen : (toBytes a).length = bytes α := length_toBeBytes a
  refine ⟨fun buf => rfl, hlen, ?_, ?_⟩
  · intro more
    have hfits : ¬ (toBytes a ++ more).length < bytes α := by
      rw [List.length_append, hlen]
      omega
    show (if _ then _ else _) = _
    rw [if_neg hfits, List.take_left' hlen, hbytes, fromBeBytes_toBeBytes, length_toBeBytes]
  · intro part hpart hne r hr
    have hshort := length_lt_of_part hpart hne
    rw [hlen] at hshort
    change (if _ then _ else _) = _ at hr
    rw [if_pos hshort] at hr
    cases hr

theorem HLAoctet.endsByItself (a : HLAoctet) : EndsByItself a where
  appends _ := rfl
  length := rfl
  delimits := by
    refine ⟨fun more => rfl, ?_⟩
    intro part hpart hne r hr
    have hshort := length_lt_of_part hpart hne
    have hnil : part = [] := List.length_eq_zero_iff.mp (Nat.lt_one_iff.mp hshort)
    rw [hnil] at hr
    cases hr

theorem boolAsI32_ne_zero (b : Bool) : decide (boolAsI32 b ≠ 0) = b := by cases b <;> decide

/-- A boolean is read where its integer is. -/
theorem HLAboolean.endsByItself (a : HLAboolean) : EndsByItself a := by
  have hint := BePrimitive.endsByItself (HLAinteger32BE.mk (boolAsI32 a.value))
  refine ⟨fun _ => rfl, length_toBe32 _, ?_, ?_⟩
  · intro more
    show ((decodeFrom _ : Except EncodingError (HLAinteger32BE × Nat)) >>= _) = _
    rw [show toBytes a = toBytes (HLAinteger32BE.mk (boolAsI32 a.value)) from rfl, hint.delimits.back]
    show Except.ok (HLAboolean.mk (decide (boolAsI32 a.value ≠ 0)), _) = _
    rw [boolAsI32_ne_zero]
  · intro part hpart hne r hr
    cases hd : (decodeFrom part : Except EncodingError (HLAinteger32BE × Nat)) with
    | error =>
      change ((decodeFrom part : Except EncodingError (HLAinteger32BE × Nat)) >>= _) = _ at hr
      rw [hd] at hr
      cases hr
    | ok v => exact hint.delimits.whole part hpart hne v hd

/-- A count says how long the rest is, so a part that has the count knows that
it is none. -/
theorem decodeCounted_delimits {α : Type} {need : Nat → Nat}
    {read : Nat → Bytes → Except EncodingError α} {count : Nat} {body : Bytes} {a : α}
    (hcount : count < 2 ^ 32) (hneed : 4 + body.length = need count)
    (hread : ∀ more, read count (toBe32 (.ofNat count) ++ (body ++ more)) = .ok a) :
    Delimits (decodeCounted need read) (toBe32 (.ofNat count) ++ body) a := by
  have hlen : (toBe32 (.ofNat count) ++ body).length = need count := by
    rw [List.length_append, length_toBe32, hneed]
  have hfront (more : Bytes) : (fromBe32 ((toBe32 (.ofNat count) ++ body ++ more).take 4)).toNat = count := by
    rw [List.append_assoc, List.take_left' (length_toBe32 _), fromBe32_toBe32,
      UInt32.toNat_ofNat_of_lt' hcount]
  constructor
  · intro more
    have hlong : (toBe32 (.ofNat count) ++ body ++ more).length = need count + more.length := by
      rw [List.length_append, hlen]
    rw [decodeCounted, if_neg (by omega)]
    rw [hfront, if_neg (by omega), List.append_assoc, hread, hlen]
    rfl
  · rintro part ⟨more, hmore⟩ hne r hr
    have hshort := length_lt_of_part ⟨more, hmore⟩ hne
    unfold decodeCounted at hr
    split at hr
    · cases hr
    · rename_i hfour
      have hn : (fromBe32 (part.take 4)).toNat = count := by
        have := hfront []
        rwa [List.append_nil, ← hmore, List.take_append_of_le_length (Nat.not_lt.mp hfour)] at this
      rw [hn, if_pos (hlen ▸ hshort)] at hr
      cases hr

theorem HLAopaqueData.endsByItself {a : HLAopaqueData} (hfits : a.value.length < 2 ^ 32) :
    EndsByItself a := by
  refine ⟨fun buf => List.append_assoc .., ?_, decodeCounted_delimits hfits rfl fun more => ?_⟩
  · show ([] ++ toBe32 _ ++ a.value).length = _
    rw [List.nil_append, List.length_append, length_toBe32]
    rfl
  · rw [slice_append_of_le (le_of_eq (length_toBe32 _)), length_toBe32,
      slice_append_self (Nat.add_sub_cancel_left ..).symm]

theorem HLAunicodeString.endsByItself {a : HLAunicodeString}
    (hfits : (encodeUtf16 a.value.toList).length < 2 ^ 32) : EndsByItself a := by
  have hlen := length_flatMap_blocks length_toBe16 (encodeUtf16 a.value.toList)
  refine ⟨fun buf => List.append_assoc .., ?_, decodeCounted_delimits hfits (by rw [hlen]) fun more => ?_⟩
  · show ([] ++ toBe32 _ ++ (encodeUtf16 a.value.toList).flatMap toBe16).length = _
    rw [List.nil_append, List.length_append, length_toBe32, hlen]
    rfl
  · have hunits : ((List.range (encodeUtf16 a.value.toList).length).map fun i =>
        fromBe16 (((toBe32 (.ofNat (encodeUtf16 a.value.toList).length) ++
          ((encodeUtf16 a.value.toList).flatMap toBe16 ++ more)).drop (4 + 2 * i)).take 2)) =
        encodeUtf16 a.value.toList := by
      calc _ = ((List.range (encodeUtf16 a.value.toList).length).map fun i =>
            (((encodeUtf16 a.value.toList).flatMap toBe16 ++ more).drop (2 * i)).take 2).map fromBe16 := by
              rw [List.map_map]
              refine List.map_congr_left fun i _ => ?_
              rw [← List.drop_drop, List.drop_left' (length_toBe32 _)]
              rfl
        _ = encodeUtf16 a.value.toList := by
              rw [slices_flatMap length_toBe16, List.map_map]
              exact (List.map_congr_left fun u _ => fromBe16_toBe16 u).trans (List.map_id _)
    rw [hunits, decodeUtf16_encodeUtf16]
    dsimp only
    rw [String.ofList_toList]

/-! ## Values in sequence -/

inductive ElementType
  | integer16BE
  | integer32BE
  | integer64BE
  | float32BE
  | float64BE
  | octet
  | boolean
  | unicodeString
  | opaqueData

abbrev ElementType.Value : ElementType → Type
  | integer16BE => HLAinteger16BE
  | integer32BE => HLAinteger32BE
  | integer64BE => HLAinteger64BE
  | float32BE => HLAfloat32BE
  | float64BE => HLAfloat64BE
  | octet => HLAoctet
  | boolean => HLAboolean
  | unicodeString => HLAunicodeString
  | opaqueData => HLAopaqueData

instance ElementType.dataElement : (t : ElementType) → DataElement t.Value
  | integer16BE => BePrimitive.dataElement
  | integer32BE => BePrimitive.dataElement
  | integer64BE => BePrimitive.dataElement
  | float32BE => BePrimitive.dataElement
  | float64BE => BePrimitive.dataElement
  | octet => HLAoctet.dataElement
  | boolean => HLAboolean.dataElement
  | unicodeString => HLAunicodeString.dataElement
  | opaqueData => HLAopaqueData.dataElement

/-- A value of one of the types. -/
abbrev Element := (t : ElementType) × t.Value

/-- The count of a string or of opaque data fits its four bytes. -/
def Element.Fits : Element → Prop
  | ⟨.unicodeString, a⟩ => (encodeUtf16 a.value.toList).length < 2 ^ 32
  | ⟨.opaqueData, a⟩ => a.value.length < 2 ^ 32
  | _ => True

/-- The values, encoded into one buffer. -/
def encodeElements (vs : List Element) : Bytes := vs.foldl (fun buf v => encodeInto v.2 buf) []

/-- Values of the given types, decoded one after another. -/
def decodeElements (ts : List ElementType) (bytes : Bytes) :
    Except EncodingError (List ((t : ElementType) × t.Value × Nat) × Bytes) :=
  decodeSeq (fun t => t.dataElement.decodeFrom) ts bytes

theorem Element.endsByItself (v : Element) (hv : v.Fits) : EndsByItself v.2 := by
  obtain ⟨t, a⟩ := v
  cases t with
  | integer16BE | integer32BE | integer64BE | float32BE | float64BE =>
    exact BePrimitive.endsByItself a
  | octet => exact HLAoctet.endsByItself a
  | boolean => exact HLAboolean.endsByItself a
  | unicodeString => exact HLAunicodeString.endsByItself hv
  | opaqueData => exact HLAopaqueData.endsByItself hv

theorem encodeElements_eq {vs : List Element} (h : ∀ v ∈ vs, v.Fits) :
    encodeElements vs = vs.flatMap fun v => toBytes v.2 := by
  suffices ∀ buf, vs.foldl (fun buf v => encodeInto v.2 buf) buf = buf ++ vs.flatMap fun v => toBytes v.2 from
    this []
  induction vs with
  | nil => simp
  | cons v vs ih =>
    intro buf
    have hv := (v.endsByItself (h v List.mem_cons_self)).appends buf
    rw [List.foldl_cons, hv, ih fun w hw => h w (List.mem_cons_of_mem v hw), List.flatMap_cons,
      List.append_assoc]

/-- Read element by element, with the same types, the values come back, each
from `encodedLength` bytes, and what trails them is left; and no part of an
element's encoding is read as anything. -/
structure ReadBack (vs : List Element) : Prop where
  values : ∀ trailing, decodeElements (vs.map (·.1)) (encodeElements vs ++ trailing) =
    .ok (vs.map fun v => ⟨v.1, v.2, encodedLength v.2⟩, trailing)
  whole : ∀ v ∈ vs, ∀ part, part <+: toBytes v.2 → part ≠ toBytes v.2 →
    ∀ r : v.1.Value × Nat, decodeFrom part ≠ .ok r

/-- **Encodings are uniquely decodable in sequence.** -/
theorem elements_read_back (vs : List Element) (h : ∀ v ∈ vs, v.Fits) : ReadBack vs := by
  have hends (v) (hv : v ∈ vs) : EndsByItself v.2 := v.endsByItself (h v hv)
  constructor
  · intro trailing
    have hdelimits (v) (hv : v ∈ vs) : Delimits v.1.dataElement.decodeFrom (toBytes v.2) v.2 :=
      (hends v hv).delimits
    rw [encodeElements_eq h, decodeElements, decodeSeq_encodeSeq hdelimits trailing]
    congr 2
    refine List.map_congr_left fun v hv => ?_
    rw [(hends v hv).length]
  · intro v hv part hpart hne r
    exact (hends v hv).delimits.whole part hpart hne r

/-- A number, a text with a character outside the basic plane, a truth value and
two bytes. -/
def mixedElements : List Element :=
  [⟨.integer16BE, ⟨-2⟩⟩, ⟨.unicodeString, ⟨"a𝄞"⟩⟩, ⟨.boolean, ⟨true⟩⟩, ⟨.opaqueData, ⟨[1, 2]⟩⟩]

theorem elements_read_back_mixed :
    encodeElements mixedElements =
        [0xFF, 0xFE, 0, 0, 0, 3, 0, 0x61, 0xD8, 0x34, 0xDD, 0x1E, 0, 0, 0, 1, 0, 0, 0, 2, 1, 2] ∧
      ReadBack mixedElements := by
  refine ⟨by decide +kernel, elements_read_back mixedElements ?_⟩
  intro v hv
  simp only [mixedElements, List.mem_cons, List.not_mem_nil, or_false] at hv
  obtain rfl | rfl | rfl | rfl := hv
  · trivial
  · show (encodeUtf16 _).length < _
    decide +kernel
  · trivial
  · show List.length _ < _
    decide

end Hla4
