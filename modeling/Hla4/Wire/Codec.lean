/-
# `Hla4.Wire.Codec` — frames on byte streams and in WebSocket messages

Three readers of one format, each written by itself:

    FedProCodec.decode         from a buffer that is fed         `codec.rs`
    readFrame                  from the stream                   `codec.rs`
    WsFrameSource.recvFrame    one frame a binary message        `ws.rs`

The first two agree on every stream, in whatever pieces it arrives and whichever
of them reads its first frames (`chunks_decode_as_read`).

The third compares neither the declared size with the message nor either with
the limit: it agrees where the two sizes are equal and within it
(`wsFrameSource_decodes`).  The writers know no limit, the readers do:
a frame is read back if it is within it (`frame_within_limit_read_back`).
-/
import Hla4.Lib.Incremental
import Hla4.Wire.Framing

namespace Hla4

open Lib

/-! ## The readers -/

inductive IoError
  | unexpectedEof
  | other
deriving DecidableEq

inductive CodecError
  | io (e : IoError)
  | frame (e : FrameError)
  | packetTooLarge (size : UInt32)
deriving DecidableEq

def maxPacketSize : UInt32 := 32 * 1024 * 1024

/-- The two checks on a declared size. -/
def checkPacketSize (packetSize : UInt32) : Except CodecError Unit :=
  if packetSize.toNat < headerSize then .error (.frame (.packetTooSmall packetSize))
  else if packetSize > maxPacketSize then .error (.packetTooLarge packetSize)
  else .ok ()

/-- A packet, cut after its header. -/
def parsePacket (packet : Bytes) : Except CodecError Frame :=
  match MessageHeader.decode (packet.take headerSize) with
  | .error e => .error (.frame e)
  | .ok header => .ok ⟨header, packet.drop headerSize⟩

def FedProCodec.decode : Decoder UInt8 Frame CodecError := fun src =>
  if src.length < 4 then
    (.ok none, src)
  else
    let packetSize := fromBe32 (src.take 4)
    match checkPacketSize packetSize with
    | .error e => (.error e, src)
    | .ok () =>
      if src.length < packetSize.toNat then
        (.ok none, src)
      else
        -- the packet is taken from the buffer before its header is looked at
        ((parsePacket (src.take packetSize.toNat)).map some, src.drop packetSize.toNat)

/-- What feeding the pieces of a stream to the codec comes to. -/
def FedProCodec.feedAll (chunks : List Bytes) : Decoded UInt8 Frame CodecError :=
  run FedProCodec.decode.feed ⟨[], .ok []⟩ chunks

/-- `read_exact`; a stream that ends before that is used up. -/
def readExact (n : Nat) (reader : Bytes) : Except CodecError Bytes × Bytes :=
  if reader.length < n then (.error (.io .unexpectedEof), [])
  else (.ok (reader.take n), reader.drop n)

def readFrame : Reader UInt8 Frame CodecError := fun reader =>
  match readExact 4 reader with
  | (.error e, rest) => (.error e, rest)
  | (.ok sizeBuf, rest) =>
    let packetSize := fromBe32 sizeBuf
    match checkPacketSize packetSize with
    | .error e => (.error e, rest)
    | .ok () =>
      match readExact (packetSize.toNat - 4) rest with
      | (.error e, rest) => (.error e, rest)
      | (.ok tail, rest) => (parsePacket (sizeBuf ++ tail), rest)

/-- Reading until it fails.  A frame is not empty, so that many calls do. -/
def readFrames (stream : Bytes) : Decoded UInt8 Frame CodecError :=
  readFrame.reads (stream.length + 1) stream

/-! ## The writers -/

def FedProCodec.encode (frame : Frame) (dst : Bytes) : Except CodecError Bytes :=
  .ok (dst ++ frame.header.encode ++ frame.payload)

/-- Where `write_frame` writes: what was written, and the failure of the next
write, if it fails. -/
structure Writer where
  written : Bytes
  failure : Option IoError

def writeFrame (writer : Writer) (frame : Frame) : Except CodecError Writer :=
  match writer.failure with
  | some e => .error (.io e)
  | none => .ok { writer with written := writer.written ++ (frame.header.encode ++ frame.payload) }

/-! ## Packets -/

theorem checkPacketSize_ok {n : UInt32} (h : checkPacketSize n = .ok ()) :
    headerSize ≤ n.toNat ∧ n ≤ maxPacketSize := by
  unfold checkPacketSize at h
  split at h
  · cases h
  · split at h
    · cases h
    · rename_i hsmall hlarge
      exact ⟨Nat.not_lt.mp hsmall, UInt32.not_lt.mp hlarge⟩

theorem checkPacketSize_of_le {n : UInt32} (hs : headerSize ≤ n.toNat) (hl : n ≤ maxPacketSize) :
    checkPacketSize n = .ok () := by
  rw [checkPacketSize, if_neg (Nat.not_lt.mpr hs), if_neg (UInt32.not_lt.mpr hl)]

variable {src rest : Bytes} {f : Frame}

/-- A packet is cut where a header is found. -/
theorem parsePacket_header {packet : Bytes} (h : parsePacket packet = .ok f) :
    MessageHeader.decode (packet.take headerSize) = .ok f.header ∧
      f.payload = packet.drop headerSize ∧ headerSize ≤ packet.length := by
  unfold parsePacket at h
  cases hd : MessageHeader.decode (packet.take headerSize) with
  | error =>
    rw [hd] at h
    cases h
  | ok =>
    rw [hd] at h
    cases h
    have hlen := (MessageHeader.encode_of_decode hd).1
    rw [List.length_take] at hlen
    exact ⟨rfl, rfl, le_trans hlen (Nat.min_le_right ..)⟩

/-- A packet that parses is what its frame encodes to, and its first four bytes
are the declared size. -/
theorem parsePacket_ok {packet : Bytes} (h : parsePacket packet = .ok f) :
    packet = f.encode ∧ f.header.packetSize = fromBe32 (packet.take 4) := by
  obtain ⟨hd, hpayload, _⟩ := parsePacket_header h
  obtain ⟨_, hsize, _, henc⟩ := MessageHeader.encode_of_decode hd
  rw [List.take_take, Nat.min_eq_left (by decide)] at hsize
  rw [List.take_take, Nat.min_self] at henc
  refine ⟨?_, hsize⟩
  rw [Frame.encode, henc, hpayload, List.take_append_drop]

theorem parsePacket_encode (h : headerSize ≤ f.header.packetSize.toNat) :
    parsePacket f.encode = .ok f := by
  have htake : f.encode.take headerSize = f.header.encode ++ [] := by
    rw [Frame.encode, List.take_left' f.header.length_encode, List.append_nil]
  rw [parsePacket, htake, MessageHeader.decode_encode h, Frame.encode,
    List.drop_left' f.header.length_encode]

/-- The errors of the protocol, as opposed to those of the stream. -/
def CodecError.isProtocol : CodecError → Bool
  | frame (.packetTooSmall _) => true
  | frame (.unknownMessageType _) => true
  | packetTooLarge _ => true
  | _ => false

theorem checkPacketSize_error {n : UInt32} {e : CodecError} (h : checkPacketSize n = .error e) :
    e.isProtocol = true := by
  unfold checkPacketSize at h
  split at h
  · cases h
    rfl
  · split at h <;> cases h
    rfl

theorem parsePacket_error {packet : Bytes} {e : CodecError} (hlen : headerSize ≤ packet.length)
    (h : parsePacket packet = .error e) : e.isProtocol = true := by
  unfold parsePacket at h
  cases hd : MessageHeader.decode (packet.take headerSize) with
  | ok =>
    rw [hd] at h
    cases h
  | error =>
    rw [hd] at h
    cases h
    have hlen' : headerSize ≤ (packet.take headerSize).length := by
      rw [List.length_take, Nat.min_eq_left hlen]
    obtain ⟨n, rfl⟩ | ⟨v, rfl⟩ := MessageHeader.decode_error hlen' hd
    · rfl
    · rfl

/-! ## The two decoders -/

/-- The buffer starts with a whole packet of `n` bytes. -/
structure HoldsPacket (src : Bytes) (n : UInt32) : Prop where
  size : fromBe32 (src.take 4) = n
  ok : checkPacketSize n = .ok ()
  whole : n.toNat ≤ src.length

namespace HoldsPacket

variable {src : Bytes} {n : UInt32}

theorem header (h : HoldsPacket src n) : headerSize ≤ n.toNat := (checkPacketSize_ok h.ok).1

theorem prefixed (h : HoldsPacket src n) : 4 ≤ src.length :=
  le_trans (le_trans (by decide) h.header) h.whole

theorem append (h : HoldsPacket src n) (more : Bytes) : HoldsPacket (src ++ more) n where
  size := by rw [List.take_append_of_le_length h.prefixed, h.size]
  ok := h.ok
  whole := by
    rw [List.length_append]
    exact Nat.le_add_right_of_le h.whole

theorem decode (h : HoldsPacket src n) :
    FedProCodec.decode src = ((parsePacket (src.take n.toNat)).map some, src.drop n.toNat) := by
  rw [FedProCodec.decode, if_neg (Nat.not_lt.mpr h.prefixed)]
  dsimp only
  rw [h.size, h.ok]
  rw [if_neg (Nat.not_lt.mpr h.whole)]

theorem readFrame (h : HoldsPacket src n) :
    readFrame src = (parsePacket (src.take n.toNat), src.drop n.toNat) := by
  have hn : 4 ≤ n.toNat := le_trans (by decide) h.header
  have htail : ¬ (src.drop 4).length < n.toNat - 4 := by
    rw [List.length_drop]
    have := h.whole
    omega
  have htake : src.take 4 ++ (src.drop 4).take (n.toNat - 4) = src.take n.toNat := by
    rw [← List.take_add, Nat.add_sub_cancel' hn]
  have hdrop : (src.drop 4).drop (n.toNat - 4) = src.drop n.toNat := by
    rw [List.drop_drop, Nat.add_sub_cancel' hn]
  rw [Hla4.readFrame, readExact, if_neg (Nat.not_lt.mpr h.prefixed)]
  dsimp only
  rw [h.size, h.ok]
  rw [readExact, if_neg htail, ← htake, ← hdrop]

end HoldsPacket

/-- The declared size is refused. -/
structure RefusedSize (src : Bytes) (e : CodecError) : Prop where
  prefixed : 4 ≤ src.length
  error : checkPacketSize (fromBe32 (src.take 4)) = .error e

namespace RefusedSize

variable {src : Bytes} {e : CodecError}

theorem append (h : RefusedSize src e) (more : Bytes) : RefusedSize (src ++ more) e where
  prefixed := by
    rw [List.length_append]
    exact Nat.le_add_right_of_le h.prefixed
  error := by rw [List.take_append_of_le_length h.prefixed, h.error]

theorem decode (h : RefusedSize src e) : FedProCodec.decode src = (.error e, src) := by
  rw [FedProCodec.decode, if_neg (Nat.not_lt.mpr h.prefixed)]
  dsimp only
  rw [h.error]

theorem readFrame (h : RefusedSize src e) : (readFrame src).1 = .error e := by
  rw [Hla4.readFrame, readExact, if_neg (Nat.not_lt.mpr h.prefixed)]
  dsimp only
  rw [h.error]

end RefusedSize

/-- What there is at the front of a buffer: a packet, a size that is refused, or
neither yet. -/
theorem front_cases (src : Bytes) :
    (∃ n, HoldsPacket src n) ∨ (∃ e, RefusedSize src e) ∨
      (FedProCodec.decode src = (.ok none, src) ∧ (readFrame src).1 = .error (.io .unexpectedEof)) := by
  by_cases hlen : src.length < 4
  · refine .inr (.inr ⟨?_, ?_⟩)
    · rw [FedProCodec.decode, if_pos hlen]
    · rw [readFrame, readExact, if_pos hlen]
  · cases hcheck : checkPacketSize (fromBe32 (src.take 4)) with
    | error e => exact .inr (.inl ⟨e, Nat.not_lt.mp hlen, hcheck⟩)
    | ok =>
      by_cases hwhole : src.length < (fromBe32 (src.take 4)).toNat
      · refine .inr (.inr ⟨?_, ?_⟩)
        · rw [FedProCodec.decode, if_neg hlen]
          dsimp only
          rw [hcheck]
          rw [if_pos hwhole]
        · have htail : (src.drop 4).length < (fromBe32 (src.take 4)).toNat - 4 := by
            rw [List.length_drop]
            omega
          rw [readFrame, readExact, if_neg hlen]
          dsimp only
          rw [hcheck]
          rw [readExact, if_pos htail]
      · exact .inl ⟨_, rfl, hcheck, Nat.not_lt.mp hwhole⟩

theorem map_some_cases {r : Except CodecError Frame} {r' : Except CodecError (Option Frame)}
    (h : r.map some = r') :
    (∃ f, r = .ok f ∧ r' = .ok (some f)) ∨ ∃ e, r = .error e ∧ r' = .error e := by
  cases r with
  | error e => exact .inr ⟨e, rfl, h.symm⟩
  | ok f => exact .inl ⟨f, rfl, h.symm⟩

/-- What the codec does with a buffer. -/
theorem decode_cases {r : Except CodecError (Option Frame)}
    (h : FedProCodec.decode src = (r, rest)) :
    (∃ n f, HoldsPacket src n ∧ parsePacket (src.take n.toNat) = .ok f ∧ r = .ok (some f) ∧
      rest = src.drop n.toNat) ∨
    (∃ n e, HoldsPacket src n ∧ parsePacket (src.take n.toNat) = .error e ∧ r = .error e) ∨
    (∃ e, RefusedSize src e ∧ r = .error e) ∨
    ((readFrame src).1 = .error (.io .unexpectedEof) ∧ r = .ok none ∧ rest = src) := by
  obtain ⟨n, hn⟩ | ⟨e, he⟩ | ⟨hw, heof⟩ := front_cases src
  · rw [hn.decode, Prod.mk.injEq] at h
    obtain ⟨hr, rfl⟩ := h
    obtain ⟨f, hf, rfl⟩ | ⟨e, he, rfl⟩ := map_some_cases hr
    · exact .inl ⟨n, f, hn, hf, rfl, rfl⟩
    · exact .inr (.inl ⟨n, e, hn, he, rfl⟩)
  · rw [he.decode, Prod.mk.injEq] at h
    exact .inr (.inr (.inl ⟨e, he, h.1.symm⟩))
  · rw [hw, Prod.mk.injEq] at h
    exact .inr (.inr (.inr ⟨heof, h.1.symm, h.2.symm⟩))

theorem decode_item (h : FedProCodec.decode src = (.ok (some f), rest)) :
    ∃ n, HoldsPacket src n ∧ parsePacket (src.take n.toNat) = .ok f ∧ rest = src.drop n.toNat := by
  obtain ⟨n, f', hn, hf, hr, hrest⟩ | ⟨_, _, _, _, hr⟩ | ⟨_, _, hr⟩ | ⟨_, hr, _⟩ := decode_cases h
  · cases hr
    exact ⟨n, hn, hf, hrest⟩
  all_goals cases hr

theorem HoldsPacket.decode_append {n : UInt32} (h : HoldsPacket src n) (more : Bytes) :
    FedProCodec.decode (src ++ more) =
      ((parsePacket (src.take n.toNat)).map some, src.drop n.toNat ++ more) := by
  rw [(h.append more).decode, List.take_append_of_le_length h.whole,
    List.drop_append_of_le_length h.whole]

theorem decode_incremental : FedProCodec.decode.Incremental where
  waits := by
    intro buf rest h
    obtain ⟨_, _, _, _, hr, _⟩ | ⟨_, _, _, _, hr⟩ | ⟨_, _, hr⟩ | ⟨_, _, hrest⟩ := decode_cases h
    · cases hr
    · cases hr
    · cases hr
    · exact hrest
  shorter := by
    intro buf f rest h
    obtain ⟨n, hn, _, rfl⟩ := decode_item h
    have hheader : 24 ≤ n.toNat := hn.header
    have hwhole := hn.whole
    rw [List.length_drop]
    omega
  item := by
    intro buf f rest h more
    obtain ⟨n, hn, hf, rfl⟩ := decode_item h
    rw [hn.decode_append, hf]
    rfl
  error := by
    intro buf e rest h more
    obtain ⟨_, _, _, _, hr, _⟩ | ⟨n, e', hn, he, hr⟩ | ⟨e', he, hr⟩ | ⟨_, hr, _⟩ := decode_cases h
    · cases hr
    · cases hr
      refine ⟨buf.drop n.toNat ++ more, ?_⟩
      rw [hn.decode_append, he]
      rfl
    · cases hr
      exact ⟨buf ++ more, (he.append more).decode⟩
    · cases hr

theorem readFrame_follows : readFrame.Follows FedProCodec.decode (.io .unexpectedEof) where
  item := by
    intro s f rest h
    obtain ⟨n, hn, hf, rfl⟩ := decode_item h
    rw [hn.readFrame, hf]
  waits := by
    intro s rest h
    obtain ⟨_, _, _, _, hr, _⟩ | ⟨_, _, _, _, hr⟩ | ⟨_, _, hr⟩ | ⟨heof, _, _⟩ := decode_cases h
    · cases hr
    · cases hr
    · cases hr
    · exact heof
  error := by
    intro s e rest h
    obtain ⟨_, _, _, _, hr, _⟩ | ⟨n, e', hn, he, hr⟩ | ⟨e', he, hr⟩ | ⟨_, hr, _⟩ := decode_cases h
    · cases hr
    · cases hr
      rw [hn.readFrame, he]
    · cases hr
      exact he.readFrame
    · cases hr

/-- The codec fails with an error of the protocol only. -/
theorem decode_error_isProtocol {e : CodecError} (h : FedProCodec.decode src = (.error e, rest)) :
    e.isProtocol = true := by
  obtain ⟨_, _, _, _, hr, _⟩ | ⟨n, e', hn, he, hr⟩ | ⟨e', he, hr⟩ | ⟨_, hr, _⟩ := decode_cases h
  · cases hr
  · cases hr
    refine parsePacket_error ?_ he
    rw [List.length_take, Nat.min_eq_left hn.whole]
    exact hn.header
  · cases hr
    exact checkPacketSize_error he.error
  · cases hr

theorem drain_error_isProtocol {e : CodecError}
    (h : (FedProCodec.decode.drain src).rest = .error e) : e.isProtocol = true := by
  induction src using drain_induction decode_incremental with
  | error src e' rest hd =>
    rw [drain_error hd] at h
    cases h
    exact decode_error_isProtocol hd
  | waits src hd =>
    rw [drain_waits hd] at h
    cases h
  | item src f rest hd ih =>
    rw [drain_item decode_incremental hd] at h
    exact ih h

/-- A decoded frame is what was taken from the buffer. -/
theorem decode_exact (h : FedProCodec.decode src = (.ok (some f), rest)) :
    src = f.encode ++ rest := by
  obtain ⟨n, _, hf, rfl⟩ := decode_item h
  rw [← (parsePacket_ok hf).1, List.take_append_drop]

/-- The header says how long the frame is, and that is within the limit. -/
structure Frame.Readable (f : Frame) : Prop where
  sized : f.header.packetSize.toNat = headerSize + f.payload.length
  limit : headerSize + f.payload.length ≤ maxPacketSize.toNat

theorem take_four_encode (f : Frame) (more : Bytes) :
    fromBe32 ((f.encode ++ more).take 4) = f.header.packetSize := by
  rw [Frame.encode, MessageHeader.encode, List.append_assoc, List.append_assoc,
    List.take_left' (length_toBe32 _), fromBe32_toBe32]

theorem Frame.length_encode (f : Frame) : f.encode.length = headerSize + f.payload.length := by
  rw [Frame.encode, List.length_append, MessageHeader.length_encode]

theorem Frame.Readable.holdsPacket (h : f.Readable) (more : Bytes) :
    HoldsPacket (f.encode ++ more) f.header.packetSize where
  size := take_four_encode f more
  ok := checkPacketSize_of_le (h.sized ▸ Nat.le_add_right ..) (UInt32.le_iff_toNat_le.mpr (h.sized ▸ h.limit))
  whole := by
    rw [List.length_append, f.length_encode, h.sized]
    exact Nat.le_add_right ..

theorem Frame.Readable.parses (h : f.Readable) (more : Bytes) :
    parsePacket ((f.encode ++ more).take f.header.packetSize.toNat) = .ok f ∧
      (f.encode ++ more).drop f.header.packetSize.toNat = more := by
  have hlen : f.encode.length = f.header.packetSize.toNat := by rw [f.length_encode, h.sized]
  rw [List.take_left' hlen, List.drop_left' hlen]
  exact ⟨parsePacket_encode (h.sized ▸ Nat.le_add_right ..), rfl⟩

theorem Frame.Readable.decode (h : f.Readable) (more : Bytes) :
    FedProCodec.decode (f.encode ++ more) = (.ok (some f), more) := by
  obtain ⟨hf, hmore⟩ := h.parses more
  rw [(h.holdsPacket more).decode, hf, hmore]
  rfl

theorem Frame.Readable.readFrame (h : f.Readable) (more : Bytes) :
    readFrame (f.encode ++ more) = (.ok f, more) := by
  obtain ⟨hf, hmore⟩ := h.parses more
  rw [(h.holdsPacket more).readFrame, hf, hmore]

theorem feedAll_eq (chunks : List Bytes) :
    FedProCodec.feedAll chunks = FedProCodec.decode.drain chunks.flatten :=
  run_feed decode_incremental [] chunks

/-! ## Chunks -/

/-- Both find the same frames, and the one ends with an error of the protocol
where the other does. -/
structure AgreesWithReading (d r : Decoded UInt8 Frame CodecError) : Prop where
  frames : d.items = r.items
  error : ∀ e, d.rest = .error e ↔ r.rest = .error e ∧ e.isProtocol = true
  -- reading goes on until it fails
  ends : ∃ e, r.rest = .error e

theorem drain_agrees (stream : Bytes) :
    AgreesWithReading (FedProCodec.decode.drain stream) (readFrames stream) := by
  have hall := reads_all decode_incremental readFrame_follows (Nat.lt_succ_self stream.length)
  rw [readFrames, hall]
  refine ⟨rfl, fun e => ?_, _, rfl⟩
  rw [Decoded.failure]
  cases hrest : (FedProCodec.decode.drain stream).rest with
  | error =>
    have hprotocol := drain_error_isProtocol hrest
    constructor
    · rintro ⟨⟩
      exact ⟨rfl, hprotocol⟩
    · rintro ⟨⟨⟩, _⟩
      rfl
  | ok =>
    constructor
    · rintro ⟨⟩
    · rintro ⟨⟨⟩, h⟩
      cases h

/-- The encodings of some frames, one after the other. -/
def FedProCodec.encodeAll (frames : List Frame) : Except CodecError Bytes :=
  frames.foldlM (fun dst f => FedProCodec.encode f dst) []

theorem foldlM_encode (frames : List Frame) (dst : Bytes) :
    frames.foldlM (fun dst f => FedProCodec.encode f dst) dst =
      .ok (dst ++ (frames.map Frame.encode).flatten) := by
  induction frames generalizing dst with
  | nil => simp [pure, Except.pure]
  | cons f frames ih =>
    rw [List.foldlM_cons, FedProCodec.encode]
    show frames.foldlM _ _ = _
    rw [ih, List.map_cons, List.flatten_cons, Frame.encode]
    simp

theorem encodeAll_eq (frames : List Frame) :
    FedProCodec.encodeAll frames = .ok (frames.map Frame.encode).flatten :=
  foldlM_encode frames []

theorem readFrame_ok (h : readFrame src = (.ok f, rest)) :
    FedProCodec.decode src = (.ok (some f), rest) := by
  obtain ⟨n, hn⟩ | ⟨e, he⟩ | ⟨_, heof⟩ := front_cases src
  · rw [hn.readFrame, Prod.mk.injEq] at h
    rw [hn.decode, h.1, h.2]
    rfl
  · have := he.readFrame
    rw [h] at this
    cases this
  · rw [h] at heof
    cases heof

/-- **The codec and `read_frame` decode alike.**  In whatever chunks a stream
arrives, the codec finds the frames that reading it finds, and the same error of
the protocol after them; if there is none, it keeps what follows the last whole
frame.  The first frames may be read and the rest decoded.  A frame encodes to
the bytes it was decoded from, and frames within the limit are decoded from
their encodings. -/
theorem chunks_decode_as_read (stream : Bytes) :
    (∀ chunks : List Bytes, chunks.flatten = stream →
      AgreesWithReading (FedProCodec.feedAll chunks) (readFrames stream) ∧
      ∀ left, (FedProCodec.feedAll chunks).rest = .ok left →
        stream = ((FedProCodec.feedAll chunks).items.map Frame.encode).flatten ++ left ∧
          FedProCodec.decode left = (.ok none, left)) ∧
    (∀ k left, (readFrame.reads k stream).rest = .ok left →
      ∀ chunks : List Bytes, chunks.flatten = left →
        AgreesWithReading ((FedProCodec.feedAll chunks).after (readFrame.reads k stream).items)
          (readFrames stream)) ∧
    (∀ f rest, FedProCodec.decode stream = (.ok (some f), rest) ∨ readFrame stream = (.ok f, rest) →
      ∃ bytes, FedProCodec.encode f [] = .ok bytes ∧ stream = bytes ++ rest) ∧
    (∀ frames : List Frame, (∀ f ∈ frames, f.Readable) → FedProCodec.encodeAll frames = .ok stream →
      ∀ chunks : List Bytes, chunks.flatten = stream →
        FedProCodec.feedAll chunks = ⟨frames, .ok []⟩) := by
  refine ⟨?_, ?_, ?_, ?_⟩
  · rintro chunks rfl
    rw [feedAll_eq]
    exact ⟨drain_agrees _, fun left hleft => drain_exact decode_incremental decode_exact hleft⟩
  · rintro k left hleft chunks rfl
    rw [feedAll_eq, reads_drain decode_incremental readFrame_follows hleft]
    exact drain_agrees stream
  · intro f rest h
    have hd : FedProCodec.decode stream = (.ok (some f), rest) := h.elim id readFrame_ok
    exact ⟨f.encode, rfl, decode_exact hd⟩
  · rintro frames hframes henc chunks rfl
    rw [encodeAll_eq, Except.ok.injEq] at henc
    have hdrain := drain_encodings decode_incremental frames [] fun f hf => (hframes f hf).decode
    rw [List.append_nil, henc] at hdrain
    rw [feedAll_eq, hdrain]
    exact congrArg (Decoded.mk · _) (List.append_nil frames)

/-- Two frames, cut in the size of the first and in the payload of the second. -/
theorem chunks_decode_as_read_two :
    let f : Frame := ⟨⟨26, 7, 9, 0, .hlaCallRequest⟩, [1, 2]⟩
    FedProCodec.feedAll [f.encode.take 3, f.encode.drop 3 ++ f.encode.take 25, [2]] =
      ⟨[f, f], .ok []⟩ := by
  intro f
  refine (chunks_decode_as_read (f.encode ++ f.encode)).2.2.2 [f, f] ?_ rfl _ rfl
  intro g hg
  have : g = f := by simpa using hg
  subst this
  exact ⟨rfl, by decide⟩

/-! ## The limit -/

/-- `Frame::new` with the header that `with_payload_size` makes for the
payload. -/
def Frame.ofPayload (payload : Bytes) (sequenceNumber : Int32) (sessionId : UInt64)
    (lastReceivedSequenceNumber : Int32) (messageType : MessageType) : Frame :=
  ⟨.withPayloadSize (.ofNat payload.length) sequenceNumber sessionId lastReceivedSequenceNumber
    messageType, payload⟩

/-- Both decoders find the frame in the bytes, and nothing else. -/
def ReadsBack (f : Frame) (bytes : Bytes) : Prop :=
  FedProCodec.decode bytes = (.ok (some f), []) ∧ readFrame bytes = (.ok f, [])

section Limit

variable {payload : Bytes} {sequenceNumber : Int32} {sessionId : UInt64}
  {lastReceivedSequenceNumber : Int32} {messageType : MessageType}

theorem Frame.ofPayload_packetSize (hfits : headerSize + payload.length < UInt32.size) :
    (Frame.ofPayload payload sequenceNumber sessionId lastReceivedSequenceNumber
      messageType).header.packetSize.toNat = headerSize + payload.length := by
  show (UInt32.ofNat headerSize + UInt32.ofNat payload.length).toNat = _
  rw [← UInt32.ofNat_add, UInt32.toNat_ofNat_of_lt' hfits]

theorem Frame.ofPayload_readable (hlimit : headerSize + payload.length ≤ maxPacketSize.toNat) :
    (Frame.ofPayload payload sequenceNumber sessionId lastReceivedSequenceNumber
      messageType).Readable :=
  ⟨ofPayload_packetSize (lt_of_le_of_lt hlimit (by decide)), hlimit⟩

end Limit

theorem Frame.refusedSize (hlimit : maxPacketSize < f.header.packetSize) :
    RefusedSize f.encode (.packetTooLarge f.header.packetSize) where
  prefixed := by
    rw [f.length_encode]
    exact Nat.le_add_right_of_le (by decide)
  error := by
    have hfour := take_four_encode f []
    have hsmall : ¬ f.header.packetSize.toNat < headerSize := by
      have hlt : 33554432 < f.header.packetSize.toNat := UInt32.lt_iff_toNat_lt.mp hlimit
      rw [headerSize]
      omega
    rw [List.append_nil] at hfour
    rw [hfour, checkPacketSize, if_neg hsmall, if_pos hlimit]

/-- Whichever of the two writers accepts the frame, its bytes are read back. -/
structure Frame.WrittenIsRead (f : Frame) : Prop where
  encoded : ∀ bytes, FedProCodec.encode f [] = .ok bytes → ReadsBack f bytes
  written : ∀ writer writer', writeFrame writer f = .ok writer' →
    ∃ bytes, writer'.written = writer.written ++ bytes ∧ ReadsBack f bytes

theorem Frame.Readable.writtenIsRead (hf : f.Readable) : f.WrittenIsRead := by
  have hback : ReadsBack f f.encode := by
    have hd := hf.decode []
    have hr := hf.readFrame []
    rw [List.append_nil] at hd hr
    exact ⟨hd, hr⟩
  constructor
  · rintro bytes ⟨⟩
    exact hback
  · intro writer writer' hw
    unfold writeFrame at hw
    cases hfail : writer.failure with
    | some =>
      rw [hfail] at hw
      cases hw
    | none =>
      rw [hfail] at hw
      cases hw
      exact ⟨f.encode, rfl, hback⟩

/-- **What is written is read back**, exactly within the limit. -/
theorem written_is_read_iff (payload : Bytes) (sequenceNumber : Int32) (sessionId : UInt64)
    (lastReceivedSequenceNumber : Int32) (messageType : MessageType)
    (hfits : headerSize + payload.length < UInt32.size) :
    (Frame.ofPayload payload sequenceNumber sessionId lastReceivedSequenceNumber
      messageType).WrittenIsRead ↔ headerSize + payload.length ≤ maxPacketSize.toNat := by
  constructor
  · intro hread
    by_contra hlimit
    have hlarge : maxPacketSize < (Frame.ofPayload payload sequenceNumber sessionId
        lastReceivedSequenceNumber messageType).header.packetSize := by
      rw [UInt32.lt_iff_toNat_lt, Frame.ofPayload_packetSize hfits]
      exact Nat.lt_of_not_le hlimit
    -- encode has no limit, and decode refuses the size
    have hback := (hread.encoded _ rfl).1
    cases (Frame.refusedSize hlarge).decode.symm.trans hback
  · intro hlimit
    exact (Frame.ofPayload_readable hlimit).writtenIsRead

theorem written_is_read_iff_three :
    let f := Frame.ofPayload [1, 2, 3] 7 9 0 .hlaCallRequest
    ReadsBack f f.encode :=
  ((written_is_read_iff [1, 2, 3] 7 9 0 .hlaCallRequest (by decide)).mpr (by decide)).encoded _ rfl

/-- The frame is written, by both writers, and refused by both readers. -/
structure WrittenNotRead (f : Frame) : Prop where
  encodes : FedProCodec.encode f [] = .ok f.encode
  writes : writeFrame ⟨[], none⟩ f = .ok ⟨f.encode, none⟩
  decode : FedProCodec.decode f.encode = (.error (.packetTooLarge f.header.packetSize), f.encode)
  read : (readFrame f.encode).1 = .error (.packetTooLarge f.header.packetSize)

theorem WrittenNotRead.of_limit (hlimit : maxPacketSize < f.header.packetSize) :
    WrittenNotRead f :=
  ⟨rfl, rfl, (f.refusedSize hlimit).decode, (f.refusedSize hlimit).readFrame⟩

/-- A payload of 32 MiB: the frame is 24 bytes above the limit. -/
theorem large_frame_written_not_read :
    ∃ payload : Bytes, payload.length = 32 * 1024 * 1024 ∧ headerSize + payload.length < UInt32.size ∧
      WrittenNotRead (Frame.ofPayload payload 7 9 0 .hlaCallRequest) := by
  obtain ⟨payload, hlen⟩ : ∃ payload : Bytes, payload.length = 32 * 1024 * 1024 :=
    ⟨List.replicate _ 0, List.length_replicate⟩
  have hfits : headerSize + payload.length < UInt32.size := by
    rw [hlen]
    decide
  refine ⟨payload, hlen, hfits, .of_limit (UInt32.lt_iff_toNat_lt.mpr ?_)⟩
  rw [Frame.ofPayload_packetSize hfits, hlen]
  decide

/-! ## WebSocket messages -/

/-- What a WebSocket stream yields; `other` are Text, Ping, Pong and raw frames,
`failed` a read error. -/
inductive WsMessage
  | binary (bytes : Bytes)
  | close
  | other
  | failed

def WsFrameSource.recvFrame : List WsMessage → Except CodecError Frame × List WsMessage
  | [] => (.error (.io .unexpectedEof), [])
  | .failed :: messages => (.error (.io .other), messages)
  | .binary bytes :: messages =>
    (if bytes.length < headerSize then .error (.frame (.truncated headerSize bytes.length))
      else parsePacket bytes, messages)
  | .close :: messages => (.error (.io .unexpectedEof), messages)
  | .other :: messages => recvFrame messages

/-- The message is as long as its first four bytes say, and within the limit. -/
structure SizedMessage (b : Bytes) : Prop where
  size : (fromBe32 (b.take 4)).toNat = b.length
  limit : b.length ≤ maxPacketSize.toNat

/-- The two transports make the same frame of the message, or none. -/
structure SameFrame (b : Bytes) : Prop where
  decoded : ∀ f messages, WsFrameSource.recvFrame (.binary b :: messages) = (.ok f, messages) →
    FedProCodec.decode b = (.ok (some f), [])
  received : ∀ f messages, FedProCodec.decode b = (.ok (some f), []) →
    WsFrameSource.recvFrame (.binary b :: messages) = (.ok f, messages)

/-- A message is accepted if it starts with a header. -/
theorem recvFrame_ok {b : Bytes} {messages : List WsMessage} :
    WsFrameSource.recvFrame (.binary b :: messages) = (.ok f, messages) ↔ parsePacket b = .ok f := by
  rw [WsFrameSource.recvFrame]
  constructor
  · intro hrecv
    split at hrecv
    · cases hrecv
    · exact congrArg Prod.fst hrecv
  · intro hparse
    rw [if_neg (Nat.not_lt.mpr (parsePacket_header hparse).2.2), hparse]

/-- What the codec takes for one frame, nothing left, has the size it declares. -/
theorem decode_whole {b : Bytes} :
    FedProCodec.decode b = (.ok (some f), []) ↔ SizedMessage b ∧ parsePacket b = .ok f := by
  constructor
  · intro hd
    obtain ⟨n, hn, hf, hrest⟩ := decode_item hd
    have hle : b.length ≤ n.toNat := List.drop_eq_nil_iff.mp hrest.symm
    have hsize : n.toNat = b.length := le_antisymm hn.whole hle
    rw [List.take_of_length_le hle] at hf
    refine ⟨⟨hn.size ▸ hsize, ?_⟩, hf⟩
    rw [← hsize]
    exact UInt32.le_iff_toNat_le.mp (checkPacketSize_ok hn.ok).2
  · rintro ⟨hb, hparse⟩
    obtain ⟨_, _, hlen⟩ := parsePacket_header hparse
    have hpacket : HoldsPacket b (fromBe32 (b.take 4)) :=
      { size := rfl
        ok := checkPacketSize_of_le (hb.size ▸ hlen)
          (UInt32.le_iff_toNat_le.mpr (hb.size ▸ hb.limit))
        whole := hb.size.le }
    rw [hpacket.decode, hb.size, List.take_length, List.drop_length, hparse]
    rfl

/-- **What the two transports accept**: the same, except for a message that
starts with a header and is not of the size it declares. -/
theorem sameFrame_iff (b : Bytes) :
    SameFrame b ↔
      ((∃ header, MessageHeader.decode (b.take headerSize) = .ok header) → SizedMessage b) := by
  constructor
  · rintro hsame ⟨header, hheader⟩
    have hparse : parsePacket b = .ok ⟨header, b.drop headerSize⟩ := by
      rw [parsePacket, hheader]
    exact (decode_whole.mp (hsame.decoded _ [] (recvFrame_ok.mpr hparse))).1
  · intro hsized
    constructor
    · intro f messages hrecv
      have hparse := recvFrame_ok.mp hrecv
      exact decode_whole.mpr ⟨hsized ⟨f.header, (parsePacket_header hparse).1⟩, hparse⟩
    · intro f messages hd
      exact recvFrame_ok.mpr (decode_whole.mp hd).2

/-- A header and nothing else, which says there are 100 bytes. -/
def shortMessage : Frame := ⟨⟨100, 7, 9, 0, .hlaCallRequest⟩, []⟩

/-- It is a frame for the WebSocket transport, and the codec waits for more. -/
theorem wsFrameSource_accepts_short :
    WsFrameSource.recvFrame [.binary shortMessage.encode] = (.ok shortMessage, []) ∧
      FedProCodec.decode shortMessage.encode = (.ok none, shortMessage.encode) :=
  ⟨rfl, rfl⟩

end Hla4
