import GoREgo.Lib.Reader
import GoREgo.Proto
import Mathlib.Data.List.Forall2
import Mathlib.Data.List.Infix

/-! The frames of the worker protocol: a message is written as its length in four bytes, the
lowest first, and its payload. Reading takes the same two parts off a stream that comes in pieces
of any size.
-/

namespace GoREgo.Framing

open Lib

/-- `proto.Marshal` and `proto.Unmarshal` at a type of messages. -/
structure Codec (Message : Type) where
  marshal : Message → Except GoError Bytes
  unmarshal : Bytes → Except GoError Message

/-- `binary.LittleEndian.PutUint32` into four bytes. -/
def putUint32 (v : UInt32) : Bytes :=
  [v.toUInt8, (v >>> 8).toUInt8, (v >>> 16).toUInt8, (v >>> 24).toUInt8]

/-- `binary.LittleEndian.Uint32`. -/
def uint32 (b : Bytes) : UInt32 :=
  (b.getD 0 0).toUInt32 ||| (b.getD 1 0).toUInt32 <<< 8 ||| (b.getD 2 0).toUInt32 <<< 16
    ||| (b.getD 3 0).toUInt32 <<< 24

/-- The worker's standard input: what has been written, and after how many bytes and with which
error the pipe stops taking more.
-/
structure Writer where
  written : Bytes
  limit : Option (Nat × GoError)
deriving DecidableEq, Repr

def Writer.write (writer : Writer) (data : Bytes) : Option GoError × Writer :=
  match writer.limit with
  | none => (none, { writer with written := writer.written ++ data })
  | some (room, err) =>
      (if data.length ≤ room then none else some err,
        { written := writer.written ++ data.take room, limit := some (room - data.length, err) })

def writeProto {Message : Type} (codec : Codec Message) (writer : Writer) (message : Message)
    : Option GoError × Writer :=
  match codec.marshal message with
  | .error err => (some err, writer)
  | .ok data =>
      -- The length is converted to 32 bits, so a longer payload wraps around.
      match writer.write (putUint32 (UInt32.ofNat data.length)) with
      | (some err, writer) => (some err, writer)
      | (none, writer) => writer.write data

def readError : Reader.FillError GoError → GoError
  | .eof => .plain "EOF"
  | .unexpectedEOF => .plain "unexpected EOF"
  | .failed err => err

/-- `readProto`. The bound is on the calls of `Read` for each of the two parts. -/
def readProto {Message : Type} (codec : Codec Message) (fuel : Nat) (reader : Reader UInt8 GoError)
    : Option (Except GoError (Message × Reader UInt8 GoError)) :=
  match Reader.readFull 4 fuel [] reader with
  | none => none
  | some (.error err) => some (.error (readError err))
  | some (.ok (lenBuf, reader)) =>
      match Reader.readFull (uint32 lenBuf).toNat fuel [] reader with
      | none => none
      | some (.error err) => some (.error (readError err))
      | some (.ok (data, reader)) =>
          match codec.unmarshal data with
          | .error err => some (.error err)
          | .ok message => some (.ok (message, reader))

/-- Messages written one after the other, up to the first error. -/
def writeProtos {Message : Type} (codec : Codec Message)
    : Writer → List Message → Option GoError × Writer
  | writer, [] => (none, writer)
  | writer, message :: messages =>
      match writeProto codec writer message with
      | (some err, writer) => (some err, writer)
      | (none, writer) => writeProtos codec writer messages

/-- A number of messages read one after the other, up to the first error. -/
def readProtos {Message : Type} (codec : Codec Message) (fuel : Nat)
    : Nat → Reader UInt8 GoError → Option (Except GoError (List Message × Reader UInt8 GoError))
  | 0, reader => some (.ok ([], reader))
  | count + 1, reader =>
      match readProto codec fuel reader with
      | none => none
      | some (.error err) => some (.error err)
      | some (.ok (message, reader)) =>
          match readProtos codec fuel count reader with
          | none => none
          | some (.error err) => some (.error err)
          | some (.ok (messages, reader)) => some (.ok (message :: messages, reader))

def frame (data : Bytes) : Bytes :=
  putUint32 (UInt32.ofNat data.length) ++ data

def stream (payloads : List Bytes) : Bytes :=
  payloads.flatMap frame

section

variable {Message : Type} {codec : Codec Message} {fuel : Nat} {reader : Reader UInt8 GoError}
  {data tail : Bytes}

/-- The four bytes give the number back, bit by bit. -/
theorem uint32_putUint32 (v : UInt32)
    : uint32 (putUint32 v) = v := by
  apply UInt32.eq_of_toBitVec_eq
  apply BitVec.eq_of_getLsbD_eq
  intro i inside
  simp only [uint32, putUint32, List.getD_cons_zero, List.getD_cons_succ, UInt32.toBitVec_or,
    UInt32.toBitVec_shiftLeft, UInt8.toBitVec_toUInt32, UInt32.toBitVec_toUInt8,
    UInt32.toBitVec_shiftRight, BitVec.getLsbD_or]
  simp
  grind

theorem length_putUint32 (v : UInt32)
    : (putUint32 v).length = 4 :=
  rfl

/-- A length below `2 ^ 32` is read back as it was written. -/
theorem uint32_length (short : data.length < 2 ^ 32)
    : (uint32 (putUint32 (UInt32.ofNat data.length))).toNat = data.length := by
  rw [uint32_putUint32]
  exact UInt32.toNat_ofNat_of_lt short

theorem writeProto_frame {writer : Writer} {message : Message} (open_ : writer.limit = none)
    (made : codec.marshal message = .ok data)
    : writeProto codec writer message
      = (none, { writer with written := writer.written ++ frame data }) := by
  simp only [writeProto, made, Writer.write, open_, frame, List.append_assoc]

theorem readProto_frame (sound : reader.Sound) (enough : reader.bound < fuel)
    (short : data.length < 2 ^ 32) (front : reader.left = frame data ++ tail) {message : Message}
    (made : codec.unmarshal data = .ok message)
    : ∃ after, readProto codec fuel reader = some (.ok (message, after))
        ∧ after.left = tail ∧ after.Sound ∧ after.bound ≤ reader.bound := by
  rw [frame, List.append_assoc] at front
  obtain ⟨middle, lengthRead, rest, middleSound, fewer⟩ :=
    Reader.readFull_front sound enough (length_putUint32 _) front
  obtain ⟨after, payloadRead, left, afterSound, less⟩ :=
    Reader.readFull_front middleSound (Nat.lt_of_le_of_lt fewer enough) rfl rest
  refine ⟨after, ?_, left, afterSound, Nat.le_trans less fewer⟩
  simp only [readProto, lengthRead, uint32_length short, payloadRead, made]

/-- A frame that the stream ends in is an error: the end comes inside the length or inside the
payload.
-/
theorem readProto_cut (sound : reader.Sound) (enough : reader.bound < fuel)
    (short : data.length < 2 ^ 32) (part : reader.left <+: frame data)
    (cut : reader.left ≠ frame data)
    : ∃ err, readProto codec fuel reader = some (.error err) := by
  by_cases inLength : reader.left.length < 4
  · obtain ⟨err, failed⟩ := Reader.readFull_short sound enough inLength
    exact ⟨readError err, by simp only [readProto, failed]⟩
  -- The length is whole, so what is left begins with it and ends inside the payload.
  obtain ⟨rest, front⟩ : putUint32 (UInt32.ofNat data.length) <+: reader.left :=
    List.prefix_of_prefix_length_le (List.prefix_append _ data) part
      (by rw [length_putUint32]; omega)
  have missing : rest.length < data.length := by
    have shorter := lt_of_le_of_ne part.length_le (fun same => cut (part.eq_of_length same))
    rw [← front, frame, List.length_append, List.length_append] at shorter
    omega
  obtain ⟨middle, lengthRead, left, middleSound, fewer⟩ :=
    Reader.readFull_front sound enough (length_putUint32 _) front.symm
  obtain ⟨err, failed⟩ := Reader.readFull_short middleSound (Nat.lt_of_le_of_lt fewer enough)
    (left ▸ missing)
  exact ⟨readError err, by simp only [readProto, lengthRead, uint32_length short, failed]⟩

variable {messages : List Message} {payloads : List Bytes}

theorem stream_append (front rest : List Bytes)
    : stream (front ++ rest) = stream front ++ stream rest :=
  List.flatMap_append

theorem writeProtos_stream
    (marshalled : List.Forall₂ (fun message data => codec.marshal message = .ok data)
      messages payloads) {writer : Writer} (open_ : writer.limit = none)
    : writeProtos codec writer messages
      = (none, { writer with written := writer.written ++ stream payloads }) := by
  induction marshalled generalizing writer with
  | nil => simp only [writeProtos, stream, List.flatMap_nil, List.append_nil]
  | @cons message data messages payloads made _ ih =>
      have next : writeProto codec writer message
          = (none, { writer with written := writer.written ++ frame data }) :=
        writeProto_frame open_ made
      simp only [writeProtos, next]
      rw [@ih { writer with written := writer.written ++ frame data } open_]
      simp only [stream, List.flatMap_cons, List.append_assoc]

/-- As many messages as the stream has frames are read in their order, and the reader stands at
what follows. By induction on the frames.
-/
theorem readProtos_stream
    (unmarshalled : List.Forall₂ (fun message data => codec.unmarshal data = .ok message)
      messages payloads)
    (short : ∀ data ∈ payloads, data.length < 2 ^ 32) (sound : reader.Sound)
    (enough : reader.bound < fuel) (front : reader.left = stream payloads ++ tail)
    : ∃ after, readProtos codec fuel messages.length reader = some (.ok (messages, after))
        ∧ after.left = tail ∧ after.Sound ∧ after.bound ≤ reader.bound := by
  induction unmarshalled generalizing reader with
  | nil => exact ⟨reader, rfl, front, sound, Nat.le_refl _⟩
  | @cons message data messages payloads made _ ih =>
      rw [stream, List.flatMap_cons, List.append_assoc] at front
      obtain ⟨middle, first, rest, middleSound, fewer⟩ :=
        readProto_frame sound enough (short data List.mem_cons_self) front made
      obtain ⟨after, others, left, afterSound, less⟩ :=
        ih (fun data held => short data (List.mem_cons_of_mem _ held)) middleSound
          (Nat.lt_of_le_of_lt fewer enough) rest
      refine ⟨after, ?_, left, afterSound, Nat.le_trans less fewer⟩
      simp only [List.length_cons, readProtos, first, others]

/-- Frames round-trip. Where unmarshalling inverts marshalling and the payloads are shorter than
`2 ^ 32` bytes, the stream that was written is read back message by message, however it is split
into reads, with the reader at the boundary after each frame; where the stream ends inside a
frame, the messages before it are read and the next read is an error.
-/
theorem frames_round_trip {Message : Type} {codec : Codec Message}
    (inverse : ∀ message data, codec.marshal message = .ok data
      → codec.unmarshal data = .ok message)
    {messages : List Message} {payloads : List Bytes}
    (marshalled : List.Forall₂ (fun message data => codec.marshal message = .ok data)
      messages payloads)
    (short : ∀ data ∈ payloads, data.length < 2 ^ 32)
    : (∀ writer : Writer, writer.limit = none →
        writeProtos codec writer messages
          = (none, { writer with written := writer.written ++ stream payloads }))
      ∧ (∀ (reader : Reader UInt8 GoError) (fuel : Nat), reader.Sound → reader.bound < fuel →
        ∀ tail, reader.left = stream payloads ++ tail → ∀ count, count ≤ messages.length →
          ∃ after, readProtos codec fuel count reader = some (.ok (messages.take count, after))
            ∧ after.left = stream (payloads.drop count) ++ tail)
      ∧ ∀ (reader : Reader UInt8 GoError) (fuel : Nat), reader.Sound → reader.bound < fuel →
        ∀ count data part, payloads[count]? = some data → part <+: frame data →
          part ≠ frame data → reader.left = stream (payloads.take count) ++ part →
            ∃ after err, readProtos codec fuel count reader
                = some (.ok (messages.take count, after))
              ∧ readProto codec fuel after = some (.error err) := by
  have unmarshalled : List.Forall₂ (fun message data => codec.unmarshal data = .ok message)
      messages payloads := marshalled.imp inverse
  refine ⟨fun writer => writeProtos_stream marshalled, ?_, ?_⟩
  · intro reader fuel sound enough tail front count within
    rw [← List.take_append_drop count payloads, stream_append, List.append_assoc] at front
    obtain ⟨after, ran, left, _, _⟩ := readProtos_stream (List.forall₂_take count unmarshalled)
      (fun data held => short data (List.mem_of_mem_take held)) sound enough front
    rw [List.length_take, Nat.min_eq_left within] at ran
    exact ⟨after, ran, left⟩
  · intro reader fuel sound enough count data part at_ cutOff cut front
    have within : count ≤ messages.length := by
      have inside := (List.getElem?_eq_some_iff.mp at_).1
      rw [marshalled.length_eq]
      omega
    obtain ⟨after, ran, left, afterSound, fewer⟩ :=
      readProtos_stream (List.forall₂_take count unmarshalled)
        (fun data held => short data (List.mem_of_mem_take held)) sound enough front
    rw [List.length_take, Nat.min_eq_left within] at ran
    obtain ⟨err, failed⟩ := @readProto_cut _ codec _ _ _ afterSound
      (Nat.lt_of_le_of_lt fewer enough) (short data (List.mem_of_getElem? at_)) (left ▸ cutOff)
      (left ▸ cut)
    exact ⟨after, err, ran, failed⟩

end

def rawCodec : Codec Bytes where
  marshal := .ok
  unmarshal := .ok

def byteReader (content : Bytes) : Reader UInt8 GoError where
  content := content
  position := 0
  chunks := content.map (fun _ => { count := 1, ends := .more })

theorem byteReader_sound (content : Bytes)
    : (byteReader content).Sound := by
  intro chunk held err
  obtain ⟨_, _, rfl⟩ := List.mem_map.mp held
  nofun

/-- An empty payload and one of two bytes, read byte by byte, and cut inside the second frame. -/
theorem emptyAndPair_round_trip
    : writeProtos rawCodec { written := [], limit := none } [[], [7, 1]]
        = (none, { written := [0, 0, 0, 0, 2, 0, 0, 0, 7, 1], limit := none })
      ∧ (∃ after, readProtos rawCodec 21 1 (byteReader [0, 0, 0, 0, 2, 0, 0, 0, 7, 1])
          = some (.ok ([[]], after)) ∧ after.left = [2, 0, 0, 0, 7, 1])
      ∧ ∃ after err, readProtos rawCodec 19 1 (byteReader [0, 0, 0, 0, 2, 0, 0, 0, 7])
          = some (.ok ([[]], after)) ∧ readProto rawCodec 19 after = some (.error err) := by
  obtain ⟨wrote, whole, cut⟩ := @frames_round_trip Bytes rawCodec
    (fun _ _ made => congrArg Except.ok (Except.ok.inj made).symm) [[], [7, 1]] [[], [7, 1]]
    (.cons rfl (.cons rfl .nil)) (by decide)
  refine ⟨wrote _ rfl, ?_, ?_⟩
  · exact whole (byteReader [0, 0, 0, 0, 2, 0, 0, 0, 7, 1]) 21 (byteReader_sound _) (by decide)
      [] rfl 1 (by decide)
  · exact cut (byteReader [0, 0, 0, 0, 2, 0, 0, 0, 7]) 19 (byteReader_sound _) (by decide) 1 [7, 1]
      [2, 0, 0, 0, 7] rfl (by decide) (by decide) rfl

end GoREgo.Framing
