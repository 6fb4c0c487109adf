/-
# `Hla4.Wire.Client` — the client that makes one call at a time

`hla-wire/src/call.rs`: a client without tasks.  It writes a request, reads the
next frame, and takes it for the response; the counter of its requests is a
field of its own, advanced by `wrapping_add`.

The other clients claim their numbers with `claim_next_outbound_seq`, where
2 ^ 31 - 1 is followed by 0.  Here it is followed by -2 ^ 31, which means no
number: the two counters agree for the first 2 ^ 31 - 1 calls and no further
(`stampsValid_iff`, `last_number_overflows`).

A call is observed from outside: its stamp is the sequence number in the bytes
that it adds to what was written.
-/
import Hla4.Wire.Codec
import Hla4.Wire.Sequence

namespace Hla4

open Lib

/-- The errors of the two calls. -/
inductive SessionError
  | codec (e : CodecError)
  | unexpectedMessageType (got expected : MessageType)
  | responseMismatch (expected got : Int32)

structure ClientSeqState where
  sessionId : UInt64
  nextOutbound : Int32
  lastReceived : Int32

/-- NEW_SESSION used 0. -/
def ClientSeqState.new (sessionId : UInt64) : ClientSeqState := ⟨sessionId, 1, 0⟩

/-- Both directions of a connection: what has come in and is not read yet, and
what goes out. -/
structure Stream where
  incoming : Bytes
  outgoing : Writer

def hlaCallRequestFrame (sequenceNumber : Int32) (sessionId : UInt64)
    (lastReceivedSequenceNumber : Int32) (protobufBody : Bytes) : Frame :=
  .ofPayload protobufBody sequenceNumber sessionId lastReceivedSequenceNumber .hlaCallRequest

/-- A stream and the state that is kept beside it. -/
structure Client where
  stream : Stream
  state : ClientSeqState

namespace Client

def sendHlaCall (c : Client) (requestBody : Bytes) : Except SessionError Bytes × Client :=
  let requestSeq := c.state.nextOutbound
  let state := { c.state with nextOutbound := c.state.nextOutbound + 1 }
  let frame := hlaCallRequestFrame requestSeq state.sessionId state.lastReceived requestBody
  match writeFrame c.stream.outgoing frame with
  | .error e => (.error (.codec e), ⟨c.stream, state⟩)
  | .ok outgoing =>
    match readFrame c.stream.incoming with
    | (.error e, incoming) => (.error (.codec e), ⟨⟨incoming, outgoing⟩, state⟩)
    | (.ok response, incoming) =>
      let c := ⟨⟨incoming, outgoing⟩, { state with lastReceived := response.header.sequenceNumber }⟩
      if response.header.messageType ≠ .hlaCallResponse then
        (.error (.unexpectedMessageType response.header.messageType .hlaCallResponse), c)
      else
        match HlaCallResponsePayload.decode response.payload with
        | .error e => (.error (.codec (.frame e)), c)
        | .ok payload =>
          if payload.responseToSequenceNumber ≠ requestSeq then
            (.error (.responseMismatch requestSeq payload.responseToSequenceNumber), c)
          else (.ok payload.body, c)

def terminateSession (c : Client) : Except SessionError Unit × Client :=
  let header : MessageHeader := .withPayloadSize 0 c.state.nextOutbound c.state.sessionId
    c.state.lastReceived .ctrlTerminateSession
  let state := { c.state with nextOutbound := c.state.nextOutbound + 1 }
  match writeFrame c.stream.outgoing ⟨header, []⟩ with
  | .error e => (.error (.codec e), ⟨c.stream, state⟩)
  | .ok outgoing =>
    match readFrame c.stream.incoming with
    | (.error e, incoming) => (.error (.codec e), ⟨⟨incoming, outgoing⟩, state⟩)
    | (.ok response, incoming) =>
      -- `last_received` stays as it is
      let c := ⟨⟨incoming, outgoing⟩, state⟩
      if response.header.messageType ≠ .ctrlSessionTerminated then
        (.error (.unexpectedMessageType response.header.messageType .ctrlSessionTerminated), c)
      else (.ok (), c)

end Client

/-! ## Runs -/

inductive ClientCall
  | hlaCall (requestBody : Bytes)
  | terminateSession

/-- A call, with what arrives until it ends and whether its write fails. -/
structure ClientEvent where
  arriving : Bytes
  failure : Option IoError
  call : ClientCall

namespace Client

def new (sessionId : UInt64) : Client := ⟨⟨[], [], none⟩, .new sessionId⟩

/-- The call: whether it is successful, and the client afterwards. -/
def exec (c : Client) : ClientCall → Bool × Client
  | .hlaCall requestBody => ((c.sendHlaCall requestBody).1.isOk, (c.sendHlaCall requestBody).2)
  | .terminateSession => (c.terminateSession.1.isOk, c.terminateSession.2)

/-- The client when the call finds what arrived. -/
def meets (c : Client) (e : ClientEvent) : Client :=
  { c with stream := ⟨c.stream.incoming ++ e.arriving, { c.stream.outgoing with failure := e.failure }⟩ }

def step (c : Client) (e : ClientEvent) : Client := ((c.meets e).exec e.call).2

def Succeeds (c : Client) (e : ClientEvent) : Prop := ((c.meets e).exec e.call).1 = true

instance (c : Client) (e : ClientEvent) : Decidable (c.Succeeds e) :=
  inferInstanceAs (Decidable (_ = true))

/-- The sequence number in what was written between the two. -/
def stamp (c c' : Client) : Int32 :=
  (fromBe32 (slice (c'.stream.outgoing.written.drop c.stream.outgoing.written.length) 4 8)).toInt32

/-- The stamps of the calls of a run. -/
def stamps (c : Client) : List ClientEvent → List Int32
  | [] => []
  | e :: es => c.stamp (c.step e) :: (c.step e).stamps es

end Client

/-! ## One call -/

theorem writeFrame_ok {writer writer' : Writer} {f : Frame} (h : writeFrame writer f = .ok writer') :
    writer'.written = writer.written ++ f.encode := by
  unfold writeFrame at h
  split at h
  · cases h
  · cases h
    rfl

theorem Frame.slice_sequenceNumber (f : Frame) :
    (fromBe32 (slice f.encode 4 8)).toInt32 = f.header.sequenceNumber := by
  have hslice : slice f.encode 4 8 = toBe32 f.header.sequenceNumber.toUInt32 := by
    simp [Frame.encode, MessageHeader.encode, slice_append_of_le, slice_append_self]
  rw [hslice, fromBe32_toBe32]
  rfl

namespace Client

variable {c c' : Client}

theorem stamp_of_writeFrame {f : Frame}
    (h : writeFrame c.stream.outgoing f = .ok c'.stream.outgoing) :
    c.stamp c' = f.header.sequenceNumber := by
  rw [stamp, writeFrame_ok h, List.drop_left, f.slice_sequenceNumber]

/-- A successful call writes one frame, with the number that is next, and counts
on. -/
structure Stamps (c c' : Client) : Prop where
  next : c'.state.nextOutbound = c.state.nextOutbound + 1
  stamped : c.stamp c' = c.state.nextOutbound

/-- A successful call has found the response to its request. -/
theorem sendHlaCall_eq_ok {requestBody body : Bytes} :
    c.sendHlaCall requestBody = (.ok body, c') ↔
      ∃ outgoing response incoming,
        writeFrame c.stream.outgoing (hlaCallRequestFrame c.state.nextOutbound c.state.sessionId
          c.state.lastReceived requestBody) = .ok outgoing ∧
        readFrame c.stream.incoming = (.ok response, incoming) ∧
        response.header.messageType = .hlaCallResponse ∧
        HlaCallResponsePayload.decode response.payload = .ok ⟨c.state.nextOutbound, body⟩ ∧
        c' = ⟨⟨incoming, outgoing⟩,
          ⟨c.state.sessionId, c.state.nextOutbound + 1, response.header.sequenceNumber⟩⟩ := by
  constructor
  · intro h
    unfold sendHlaCall at h
    dsimp only at h
    split at h
    · cases h
    · rename_i outgoing hwrite
      split at h
      · cases h
      · rename_i response incoming hread
        split at h
        · cases h
        · rename_i htype
          split at h
          · cases h
          · rename_i payload hpayload
            split at h
            · cases h
            · rename_i hseq
              cases h
              refine ⟨outgoing, response, incoming, hwrite, hread, not_not.mp htype, ?_, rfl⟩
              rw [hpayload, ← not_not.mp hseq]
  · rintro ⟨outgoing, response, incoming, hwrite, hread, htype, hpayload, rfl⟩
    simp [sendHlaCall, hwrite, hread, htype, hpayload]

theorem terminateSession_eq_ok :
    c.terminateSession = (.ok (), c') ↔
      ∃ outgoing response incoming,
        writeFrame c.stream.outgoing ⟨.withPayloadSize 0 c.state.nextOutbound c.state.sessionId
          c.state.lastReceived .ctrlTerminateSession, []⟩ = .ok outgoing ∧
        readFrame c.stream.incoming = (.ok response, incoming) ∧
        response.header.messageType = .ctrlSessionTerminated ∧
        c' = ⟨⟨incoming, outgoing⟩,
          ⟨c.state.sessionId, c.state.nextOutbound + 1, c.state.lastReceived⟩⟩ := by
  constructor
  · intro h
    unfold terminateSession at h
    dsimp only at h
    split at h
    · cases h
    · rename_i outgoing hwrite
      split at h
      · cases h
      · rename_i response incoming hread
        split at h
        · cases h
        · rename_i htype
          cases h
          exact ⟨outgoing, response, incoming, hwrite, hread, not_not.mp htype, rfl⟩
  · rintro ⟨outgoing, response, incoming, hwrite, hread, htype, rfl⟩
    simp [terminateSession, hwrite, hread, htype]

theorem ok_of_isOk {ε α : Type} {r : Except ε α} (h : r.isOk = true) : ∃ a, r = .ok a := by
  cases r with
  | error => cases h
  | ok a => exact ⟨a, rfl⟩

theorem exec_stamps {call : ClientCall} (h : (c.exec call).1 = true) : c.Stamps (c.exec call).2 := by
  cases call with
  | hlaCall requestBody =>
    obtain ⟨body, hbody⟩ := ok_of_isOk h
    have hcall : c.sendHlaCall requestBody = (.ok body, (c.exec (.hlaCall requestBody)).2) :=
      Prod.ext hbody rfl
    obtain ⟨outgoing, response, incoming, hwrite, -, -, -, hc⟩ := sendHlaCall_eq_ok.mp hcall
    rw [hc]
    exact ⟨rfl, (stamp_of_writeFrame hwrite).trans rfl⟩
  | terminateSession =>
    obtain ⟨⟨⟩, hunit⟩ := ok_of_isOk h
    have hcall : c.terminateSession = (.ok (), (c.exec .terminateSession).2) := Prod.ext hunit rfl
    obtain ⟨outgoing, response, incoming, hwrite, -, -, hc⟩ := terminateSession_eq_ok.mp hcall
    rw [hc]
    exact ⟨rfl, (stamp_of_writeFrame hwrite).trans rfl⟩

theorem Succeeds.stamps {e : ClientEvent} (h : c.Succeeds e) : c.Stamps (c.step e) := by
  obtain ⟨hnext, hstamped⟩ := exec_stamps h
  exact ⟨hnext, hstamped⟩

/-! ## Whole runs -/

/-- The number of the `k`-th call from the first, counted by `wrapping_add`. -/
def serial (k : Nat) : Int32 := .ofNat (k + 1)

theorem serial_add_one (k : Nat) : serial k + 1 = serial (k + 1) := (Int32.ofNat_add (k + 1) 1).symm

theorem serial_eq_seqAt {k : Nat} (h : k + 1 < 2 ^ 31) : serial k = seqAt (1 + k) := by
  rw [serial, seqAt, Nat.add_comm 1 k, Nat.mod_eq_of_lt h]

theorem serial_last : serial (2 ^ 31 - 1) = noSequenceNumber := by decide

theorem stamps_eq_serial {es : List ClientEvent} (k : Nat) (hk : c.state.nextOutbound = serial k)
    (h : StepsMeet step Succeeds c es) : c.stamps es = (List.range' k es.length).map serial := by
  induction es generalizing c k with
  | nil => rfl
  | cons e es ih =>
    have hone := h.1.stamps
    have hnext : (c.step e).state.nextOutbound = serial (k + 1) := by
      rw [hone.next, hk, serial_add_one]
    rw [Client.stamps, hone.stamped, hk, ih (k + 1) hnext h.2]
    rfl

/-- The stamps are valid numbers, and those that `claim_next_outbound_seq` makes
from 1. -/
structure StampsValid (numbers : List Int32) : Prop where
  range : ∀ n ∈ numbers, 0 ≤ n.toInt ∧ n.toInt ≤ 2 ^ 31 - 1
  claimed : numbers = resultsInTurn claimNextOutboundSeq 1 numbers.length

/-- **The two counters agree** exactly below `2 ^ 31` calls. -/
theorem stampsValid_iff (sessionId : UInt64) (es : List ClientEvent)
    (h : StepsMeet step Succeeds (new sessionId) es) :
    StampsValid ((new sessionId).stamps es) ↔ es.length < 2 ^ 31 := by
  have hstamps : (new sessionId).stamps es = (List.range es.length).map serial := by
    rw [stamps_eq_serial 0 rfl h, List.range_eq_range']
  rw [hstamps]
  constructor
  · intro hvalid
    by_contra hlong
    -- the call after the last number
    have hmem : noSequenceNumber ∈ (List.range es.length).map serial :=
      List.mem_map.mpr ⟨2 ^ 31 - 1, List.mem_range.mpr (by omega), serial_last⟩
    exact absurd (hvalid.range _ hmem).1 (by decide)
  · intro hshort
    have hserial : (List.range es.length).map serial =
        (List.range es.length).map fun k => seqAt (1 + k) :=
      List.map_congr_left fun k hk => serial_eq_seqAt (by have := List.mem_range.mp hk; omega)
    constructor
    · intro n hn
      rw [hserial] at hn
      obtain ⟨k, -, rfl⟩ := List.mem_map.mp hn
      rw [toInt_seqAt]
      omega
    · rw [List.length_map, List.length_range, hserial]
      exact (resultsInTurn_seqAt 1 es.length).symm

/-- A call that is answered, and the end of the session. -/
def shortSession : List ClientEvent :=
  [⟨(Frame.ofPayload (HlaCallResponsePayload.encode ⟨1, [7]⟩) 0 9 1 .hlaCallResponse).encode, none,
      .hlaCall [1, 2, 3]⟩,
    ⟨(Frame.ofPayload [] 1 9 2 .ctrlSessionTerminated).encode, none, .terminateSession⟩]

theorem stampsValid_iff_shortSession :
    (new 9).stamps shortSession = [1, 2] ∧ StampsValid ((new 9).stamps shortSession) :=
  ⟨by decide +kernel, (stampsValid_iff 9 shortSession (by decide +kernel)).mpr (by decide)⟩

/-! ## Runs of any length -/

/-- The response to the request `seq`, with an empty body. -/
def reply (seq : Int32) : Frame :=
  .ofPayload (HlaCallResponsePayload.encode ⟨seq, []⟩) 0 0 0 .hlaCallResponse

/-- Call number `k`, answered. -/
def answered (k : Nat) : ClientEvent := ⟨(reply (serial k)).encode, none, .hlaCall []⟩

theorem reply_readable (seq : Int32) : (reply seq).Readable :=
  Frame.ofPayload_readable (by simp [HlaCallResponsePayload.encode]; decide)

/-- Nothing is left to read, and the next number is that of call `k`. -/
structure Quiet (k : Nat) (c : Client) : Prop where
  incoming : c.stream.incoming = []
  next : c.state.nextOutbound = serial k

theorem Quiet.answered {k : Nat} (h : Quiet k c) :
    c.Succeeds (answered k) ∧ Quiet (k + 1) (c.step (answered k)) := by
  have hread : readFrame (c.meets (Client.answered k)).stream.incoming = (.ok (reply (serial k)), []) := by
    have := (reply_readable (serial k)).readFrame []
    rw [List.append_nil] at this
    show readFrame (c.stream.incoming ++ (reply (serial k)).encode) = _
    rw [h.incoming, List.nil_append, this]
  have hpayload : HlaCallResponsePayload.decode (reply (serial k)).payload =
      .ok ⟨(c.meets (Client.answered k)).state.nextOutbound, []⟩ := by
    show _ = Except.ok (HlaCallResponsePayload.mk c.state.nextOutbound [])
    rw [h.next]
    exact HlaCallResponsePayload.decode_encode _
  have hcall : (c.meets (Client.answered k)).sendHlaCall [] = _ :=
    sendHlaCall_eq_ok.mpr ⟨_, _, _, rfl, hread, rfl, hpayload, rfl⟩
  constructor
  · rw [Succeeds]
    show (sendHlaCall _ []).1.isOk = true
    rw [hcall]
    rfl
  · have hstep : c.step (Client.answered k) = ((c.meets (Client.answered k)).sendHlaCall []).2 := rfl
    constructor
    · rw [hstep, hcall]
    · rw [hstep, hcall, ← serial_add_one, ← h.next]
      rfl

theorem Quiet.succeeds {k : Nat} (h : Quiet k c) (n : Nat) :
    StepsMeet step Succeeds c ((List.range' k n).map Client.answered) := by
  induction n generalizing c k with
  | zero => trivial
  | succ n ih => exact ⟨h.answered.1, ih h.answered.2⟩

/-- A session of `2 ^ 31` successful calls: the last request is stamped with the
number that means no number. -/
theorem last_number_overflows :
    ∃ es, es.length = 2 ^ 31 ∧ StepsMeet step Succeeds (new 9) es ∧
      noSequenceNumber ∈ (new 9).stamps es ∧ ¬ StampsValid ((new 9).stamps es) := by
  have hquiet : Quiet 0 (new 9) := ⟨rfl, rfl⟩
  obtain ⟨n, hn⟩ : ∃ n : Nat, n = 2 ^ 31 := ⟨_, rfl⟩
  have hmet := hquiet.succeeds n
  have hlen : ((List.range' 0 n).map Client.answered).length = n := by
    rw [List.length_map, List.length_range']
  have hlast : noSequenceNumber ∈ (new 9).stamps ((List.range' 0 n).map Client.answered) := by
    rw [stamps_eq_serial 0 rfl hmet, hlen, ← List.range_eq_range']
    exact List.mem_map.mpr ⟨2 ^ 31 - 1, List.mem_range.mpr (by omega), serial_last⟩
  refine ⟨_, hlen.trans hn, hmet, hlast, fun hvalid => ?_⟩
  exact absurd (hvalid.range _ hlast).1 (by decide)

end Client

end Hla4
