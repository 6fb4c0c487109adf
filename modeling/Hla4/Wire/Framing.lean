/-
# `Hla4.Wire.Framing` — frames

`hla-wire/src/framing.rs`: a frame is a header of 24 bytes and a payload, all
integers big-endian.

    0   packet size            u32, header included
    4   sequence number        i32
    8   session id             u64
    16  last received          i32
    20  message type           u32
    24  payload

The header is read back as it was written (`MessageHeader.decode_encode`), and
nothing else is read as a header (`MessageHeader.encode_of_decode`).
-/
import Hla4.Core
import Mathlib.Tactic.Ring
import Mathlib.Tactic.Positivity

namespace Hla4

/-! ## Big-endian integers -/

/-- The lowest `w` bytes of a number, most significant first. -/
def beBytes : Nat → Nat → Bytes
  | 0, _ => []
  | w + 1, v => .ofNat (v / 256 ^ w) :: beBytes w v

@[simp] theorem length_beBytes (w v : Nat) : (beBytes w v).length = w := by
  induction w with
  | zero => rfl
  | succ w ih => rw [beBytes, List.length_cons, ih]

theorem foldl_bigEndian (bytes : Bytes) (n : Nat) :
    bytes.foldl (fun n b => n * 256 + b.toNat) n = n * 256 ^ bytes.length + bigEndian bytes := by
  induction bytes generalizing n with
  | nil => simp [bigEndian]
  | cons b bytes ih =>
    rw [bigEndian, List.foldl_cons, List.foldl_cons, ih, ih (0 * 256 + b.toNat), List.length_cons,
      pow_succ]
    ring

theorem bigEndian_cons (b : UInt8) (bytes : Bytes) :
    bigEndian (b :: bytes) = b.toNat * 256 ^ bytes.length + bigEndian bytes := by
  rw [bigEndian, List.foldl_cons, foldl_bigEndian, Nat.zero_mul, Nat.zero_add]

theorem bigEndian_lt (bytes : Bytes) : bigEndian bytes < 256 ^ bytes.length := by
  induction bytes with
  | nil => decide
  | cons b bytes =>
    have hb : b.toNat + 1 ≤ 256 := b.toNat_lt
    calc bigEndian (b :: bytes) = b.toNat * 256 ^ bytes.length + bigEndian bytes := bigEndian_cons b bytes
      _ < b.toNat * 256 ^ bytes.length + 256 ^ bytes.length := by omega
      _ = (b.toNat + 1) * 256 ^ bytes.length := by ring
      _ ≤ 256 * 256 ^ bytes.length := Nat.mul_le_mul_right _ hb
      _ = 256 ^ (b :: bytes).length := by rw [List.length_cons, pow_succ, Nat.mul_comm]

theorem bigEndian_beBytes (w v : Nat) : bigEndian (beBytes w v) = v % 256 ^ w := by
  induction w with
  | zero => simp [beBytes, bigEndian, Nat.mod_one]
  | succ w ih =>
    rw [beBytes, bigEndian_cons, ih, length_beBytes, pow_succ, Nat.mod_mul]
    show (v / 256 ^ w) % 256 * 256 ^ w + _ = _
    ring

theorem beBytes_add_mul (w a v : Nat) : beBytes w (a * 256 ^ w + v) = beBytes w v := by
  induction w generalizing a with
  | zero => rfl
  | succ w ih =>
    have hsplit : a * 256 ^ (w + 1) + v = a * 256 * 256 ^ w + v := by ring
    have hhead : UInt8.ofNat ((a * 256 * 256 ^ w + v) / 256 ^ w) = .ofNat (v / 256 ^ w) := by
      rw [Nat.add_comm, Nat.add_mul_div_right _ _ (by positivity)]
      apply UInt8.toNat_inj.mp
      simp
    rw [beBytes, beBytes, hsplit, ih, hhead]

theorem beBytes_bigEndian (bytes : Bytes) : beBytes bytes.length (bigEndian bytes) = bytes := by
  induction bytes with
  | nil => rfl
  | cons b bytes ih =>
    have hhead : (b.toNat * 256 ^ bytes.length + bigEndian bytes) / 256 ^ bytes.length = b.toNat := by
      rw [Nat.add_comm, Nat.add_mul_div_right _ _ (by positivity),
        Nat.div_eq_of_lt (bigEndian_lt bytes), Nat.zero_add]
    rw [bigEndian_cons, List.length_cons, beBytes, beBytes_add_mul, ih, hhead, UInt8.ofNat_toNat]

/-- `u32::to_be_bytes` -/
def toBe32 (n : UInt32) : Bytes := beBytes 4 n.toNat

/-- `u32::from_be_bytes` -/
def fromBe32 (bytes : Bytes) : UInt32 := .ofNat (bigEndian bytes)

/-- `u64::to_be_bytes` -/
def toBe64 (n : UInt64) : Bytes := beBytes 8 n.toNat

/-- `u64::from_be_bytes` -/
def fromBe64 (bytes : Bytes) : UInt64 := .ofNat (bigEndian bytes)

@[simp] theorem length_toBe32 (n : UInt32) : (toBe32 n).length = 4 := length_beBytes 4 _

@[simp] theorem length_toBe64 (n : UInt64) : (toBe64 n).length = 8 := length_beBytes 8 _

@[simp] theorem fromBe32_toBe32 (n : UInt32) : fromBe32 (toBe32 n) = n := by
  have hlt : n.toNat < 256 ^ 4 := n.toNat_lt
  rw [fromBe32, toBe32, bigEndian_beBytes, Nat.mod_eq_of_lt hlt, UInt32.ofNat_toNat]

@[simp] theorem fromBe64_toBe64 (n : UInt64) : fromBe64 (toBe64 n) = n := by
  have hlt : n.toNat < 256 ^ 8 := n.toNat_lt
  rw [fromBe64, toBe64, bigEndian_beBytes, Nat.mod_eq_of_lt hlt, UInt64.ofNat_toNat]

theorem toBe32_fromBe32 {bytes : Bytes} (h : bytes.length = 4) : toBe32 (fromBe32 bytes) = bytes := by
  have hlt := bigEndian_lt bytes
  rw [h] at hlt
  rw [toBe32, fromBe32, UInt32.toNat_ofNat_of_lt' hlt, ← h, beBytes_bigEndian]

theorem toBe64_fromBe64 {bytes : Bytes} (h : bytes.length = 8) : toBe64 (fromBe64 bytes) = bytes := by
  have hlt := bigEndian_lt bytes
  rw [h] at hlt
  rw [toBe64, fromBe64, UInt64.toNat_ofNat_of_lt' hlt, ← h, beBytes_bigEndian]

/-- `bytes[i..j]` -/
def slice (bytes : Bytes) (i j : Nat) : Bytes := (bytes.drop i).take (j - i)

theorem length_slice {bytes : Bytes} {i j : Nat} (h : j ≤ bytes.length) :
    (slice bytes i j).length = j - i := by
  rw [slice, List.length_take, List.length_drop]
  omega

theorem slice_append_self {a b : Bytes} {n : Nat} (h : a.length = n) : slice (a ++ b) 0 n = a := by
  subst h
  simp [slice]

theorem slice_append_of_le {a b : Bytes} {i j : Nat} (h : a.length ≤ i) :
    slice (a ++ b) i j = slice b (i - a.length) (j - a.length) := by
  have hj : j - i = j - a.length - (i - a.length) := by omega
  rw [slice, slice, List.drop_append, List.drop_of_length_le h, List.nil_append, hj]

theorem slice_append_slice (bytes : Bytes) {i j k : Nat} (hij : i ≤ j) (hjk : j ≤ k) :
    slice bytes i j ++ slice bytes j k = slice bytes i k := by
  have hj : bytes.drop j = (bytes.drop i).drop (j - i) := by rw [List.drop_drop, Nat.add_sub_cancel' hij]
  have hk : k - i = j - i + (k - j) := by omega
  rw [slice, slice, slice, hj, hk, List.take_add]

/-! ## Sequence numbers -/

def headerSize : Nat := 24
def noSequenceNumber : Int32 := .minValue
def initialSequenceNumber : Int32 := 0
def maxSequenceNumber : Int32 := .maxValue

/-- The number claimed from a counter, and the counter afterwards. -/
def claimNextOutboundSeq (current : Int32) : Int32 × Int32 :=
  -- a counter that holds no valid number starts over
  let claimed := if current = noSequenceNumber then initialSequenceNumber else current
  let next := if claimed = maxSequenceNumber then initialSequenceNumber else claimed + 1
  (claimed, next)

/-- The numbers in the order they are claimed: from 0 to 2 ^ 31 - 1, and over. -/
def seqAt (k : Nat) : Int32 := .ofNat (k % 2 ^ 31)

theorem toInt_seqAt (k : Nat) : (seqAt k).toInt = (k % 2 ^ 31 : Nat) :=
  Int32.toInt_ofNat_of_lt (Nat.mod_lt _ (by decide))

theorem seqAt_ne_none (k : Nat) : seqAt k ≠ noSequenceNumber := by
  intro h
  have := congrArg Int32.toInt h
  rw [toInt_seqAt, noSequenceNumber, Int32.toInt_minValue] at this
  omega

theorem claimNextOutboundSeq_seqAt (k : Nat) :
    claimNextOutboundSeq (seqAt k) = (seqAt k, seqAt (k + 1)) := by
  rw [claimNextOutboundSeq, if_neg (seqAt_ne_none k)]
  congr 1
  split
  · next h =>
      -- the last number
      have := congrArg Int32.toInt h
      rw [toInt_seqAt, maxSequenceNumber, Int32.toInt_maxValue] at this
      rw [← Int32.toInt_inj, toInt_seqAt]
      show (0 : Int) = _
      omega
  · next h =>
      have hne : k % 2 ^ 31 ≠ 2 ^ 31 - 1 := by
        intro he
        apply h
        rw [seqAt, he]
        rfl
      have hsucc : (k + 1) % 2 ^ 31 = k % 2 ^ 31 + 1 := by omega
      rw [seqAt, seqAt, hsucc, Int32.ofNat_add]
      rfl

/-! ## Message types -/

inductive FrameError
  | packetTooSmall (size : UInt32)
  | truncated (needed had : Nat)
  | unknownMessageType (value : UInt32)
deriving DecidableEq

inductive MessageType
  | ctrlNewSession
  | ctrlNewSessionStatus
  | ctrlHeartbeat
  | ctrlHeartbeatResponse
  | ctrlTerminateSession
  | ctrlSessionTerminated
  | ctrlResumeRequest
  | ctrlResumeStatus
  | hlaCallRequest
  | hlaCallResponse
  | hlaCallbackRequest
  | hlaCallbackResponse
deriving DecidableEq

namespace MessageType

def toU32 : MessageType → UInt32
  | ctrlNewSession => 1
  | ctrlNewSessionStatus => 2
  | ctrlHeartbeat => 3
  | ctrlHeartbeatResponse => 4
  | ctrlTerminateSession => 5
  | ctrlSessionTerminated => 6
  | ctrlResumeRequest => 10
  | ctrlResumeStatus => 11
  | hlaCallRequest => 20
  | hlaCallResponse => 21
  | hlaCallbackRequest => 22
  | hlaCallbackResponse => 23

def fromU32 (value : UInt32) : Except FrameError MessageType :=
  match value.toNat with
  | 1 => .ok ctrlNewSession
  | 2 => .ok ctrlNewSessionStatus
  | 3 => .ok ctrlHeartbeat
  | 4 => .ok ctrlHeartbeatResponse
  | 5 => .ok ctrlTerminateSession
  | 6 => .ok ctrlSessionTerminated
  | 10 => .ok ctrlResumeRequest
  | 11 => .ok ctrlResumeStatus
  | 20 => .ok hlaCallRequest
  | 21 => .ok hlaCallResponse
  | 22 => .ok hlaCallbackRequest
  | 23 => .ok hlaCallbackResponse
  | _ => .error (.unknownMessageType value)

theorem fromU32_toU32 (t : MessageType) : fromU32 t.toU32 = .ok t := by
  cases t <;> rfl

theorem toU32_of_fromU32 {value : UInt32} {t : MessageType} (h : fromU32 value = .ok t) :
    t.toU32 = value := by
  apply UInt32.toNat_inj.mp
  unfold fromU32 at h
  split at h <;> cases h <;> simp [toU32, *]

theorem fromU32_error {value : UInt32} {e : FrameError} (h : fromU32 value = .error e) :
    ∃ v, e = .unknownMessageType v := by
  unfold fromU32 at h
  split at h <;> cases h
  exact ⟨value, rfl⟩

end MessageType

/-! ## Headers -/

structure MessageHeader where
  packetSize : UInt32
  sequenceNumber : Int32
  sessionId : UInt64
  lastReceivedSequenceNumber : Int32
  messageType : MessageType
deriving DecidableEq

namespace MessageHeader

/-- The header of a message whose payload is `payloadSize` bytes. -/
def withPayloadSize (payloadSize : UInt32) (sequenceNumber : Int32) (sessionId : UInt64)
    (lastReceivedSequenceNumber : Int32) (messageType : MessageType) : MessageHeader :=
  { packetSize := .ofNat headerSize + payloadSize
    sequenceNumber, sessionId, lastReceivedSequenceNumber, messageType }

def encode (h : MessageHeader) : Bytes :=
  toBe32 h.packetSize ++ (toBe32 h.sequenceNumber.toUInt32 ++ (toBe64 h.sessionId ++
    (toBe32 h.lastReceivedSequenceNumber.toUInt32 ++ toBe32 h.messageType.toU32)))

def decode (bytes : Bytes) : Except FrameError MessageHeader :=
  if bytes.length < headerSize then
    .error (.truncated headerSize bytes.length)
  else
    let packetSize := fromBe32 (slice bytes 0 4)
    if packetSize.toNat < headerSize then
      .error (.packetTooSmall packetSize)
    else do
      let messageType ← MessageType.fromU32 (fromBe32 (slice bytes 20 24))
      pure
        { packetSize
          sequenceNumber := (fromBe32 (slice bytes 4 8)).toInt32
          sessionId := fromBe64 (slice bytes 8 16)
          lastReceivedSequenceNumber := (fromBe32 (slice bytes 16 20)).toInt32
          messageType }

@[simp] theorem length_encode (h : MessageHeader) : h.encode.length = headerSize := by
  simp [encode, headerSize]

/-- A header is read back, whatever follows. -/
theorem decode_encode {h : MessageHeader} (hsize : headerSize ≤ h.packetSize.toNat) (more : Bytes) :
    decode (h.encode ++ more) = .ok h := by
  have hlen : ¬ (h.encode ++ more).length < headerSize := by simp
  have h0 : slice (h.encode ++ more) 0 4 = toBe32 h.packetSize := by
    simp [encode, slice_append_self]
  have h4 : slice (h.encode ++ more) 4 8 = toBe32 h.sequenceNumber.toUInt32 := by
    simp [encode, slice_append_of_le, slice_append_self]
  have h8 : slice (h.encode ++ more) 8 16 = toBe64 h.sessionId := by
    simp [encode, slice_append_of_le, slice_append_self]
  have h16 : slice (h.encode ++ more) 16 20 = toBe32 h.lastReceivedSequenceNumber.toUInt32 := by
    simp [encode, slice_append_of_le, slice_append_self]
  have h20 : slice (h.encode ++ more) 20 24 = toBe32 h.messageType.toU32 := by
    simp [encode, slice_append_of_le, slice_append_self]
  rw [decode, if_neg hlen]
  simp only [h0, h4, h8, h16, h20, fromBe32_toBe32, fromBe64_toBe64, MessageType.fromU32_toU32,
    Nat.not_lt.mpr hsize, if_false]
  simp [pure, Except.pure, bind, Except.bind]

/-- What is read as a header is how it is written. -/
theorem encode_of_decode {bytes : Bytes} {h : MessageHeader} (hd : decode bytes = .ok h) :
    headerSize ≤ bytes.length ∧ h.packetSize = fromBe32 (bytes.take 4) ∧
      headerSize ≤ h.packetSize.toNat ∧ h.encode = bytes.take headerSize := by
  unfold decode at hd
  split at hd
  · cases hd
  · rename_i hlen
    rw [Nat.not_lt] at hlen
    dsimp only at hd
    split at hd
    · cases hd
    · rename_i hsize
      rw [Nat.not_lt] at hsize
      cases htype : MessageType.fromU32 (fromBe32 (slice bytes 20 24)) with
      | error =>
        rw [htype] at hd
        cases hd
      | ok =>
        rw [htype] at hd
        cases hd
        refine ⟨hlen, rfl, hsize, ?_⟩
        have hl {i j : Nat} (hj : j ≤ 24) : (slice bytes i j).length = j - i :=
          length_slice (le_trans hj hlen)
        calc encode _ = slice bytes 0 4 ++ (slice bytes 4 8 ++ (slice bytes 8 16 ++
              (slice bytes 16 20 ++ slice bytes 20 24))) := by
              simp [encode, MessageType.toU32_of_fromU32 htype, toBe32_fromBe32, toBe64_fromBe64, hl]
          _ = slice bytes 0 24 := by
              rw [slice_append_slice, slice_append_slice, slice_append_slice, slice_append_slice] <;>
                omega
          _ = bytes.take headerSize := rfl

/-- With 24 bytes at hand it is the size or the message type that is refused. -/
theorem decode_error {bytes : Bytes} {e : FrameError} (hlen : headerSize ≤ bytes.length)
    (hd : decode bytes = .error e) :
    (∃ n, e = .packetTooSmall n) ∨ ∃ v, e = .unknownMessageType v := by
  unfold decode at hd
  rw [if_neg (Nat.not_lt.mpr hlen)] at hd
  dsimp only at hd
  split at hd
  · cases hd
    exact .inl ⟨_, rfl⟩
  · cases htype : MessageType.fromU32 (fromBe32 (slice bytes 20 24)) with
    | error =>
      rw [htype] at hd
      cases hd
      exact .inr (MessageType.fromU32_error htype)
    | ok =>
      rw [htype] at hd
      cases hd

end MessageHeader

/-! ## Frames -/

structure Frame where
  header : MessageHeader
  payload : Bytes
deriving DecidableEq

/-- The frame as one run of bytes. -/
def Frame.encode (f : Frame) : Bytes := f.header.encode ++ f.payload

/-! ## Call responses -/

/-- `HLA_CALL_RESPONSE` payload: the number of the request, then the body. -/
structure HlaCallResponsePayload where
  responseToSequenceNumber : Int32
  body : Bytes

namespace HlaCallResponsePayload

def encode (p : HlaCallResponsePayload) : Bytes :=
  toBe32 p.responseToSequenceNumber.toUInt32 ++ p.body

def decode (bytes : Bytes) : Except FrameError HlaCallResponsePayload :=
  if bytes.length < 4 then .error (.truncated 4 bytes.length)
  else .ok ⟨(fromBe32 (slice bytes 0 4)).toInt32, bytes.drop 4⟩

theorem decode_encode (p : HlaCallResponsePayload) : decode p.encode = .ok p := by
  have hlen : ¬ p.encode.length < 4 := by simp [encode]
  have hseq : slice p.encode 0 4 = toBe32 p.responseToSequenceNumber.toUInt32 :=
    slice_append_self (length_toBe32 _)
  have hbody : p.encode.drop 4 = p.body := List.drop_left' (length_toBe32 _)
  rw [decode, if_neg hlen, hseq, hbody, fromBe32_toBe32]
  rfl

end HlaCallResponsePayload

end Hla4
