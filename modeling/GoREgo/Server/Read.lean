import GoREgo.Lib.Reader
import GoREgo.Server.Requests

/-! `ByteStreamServer.Read` with its offset, its limit and the messages it sends, for files and
streams of the store and for compressed blobs.
-/

namespace GoREgo.Server

open Lib

structure ReadRequest where
  resourceName : String
  readOffset : Int
  readLimit : Int
deriving DecidableEq, Repr

/-- The bytes of a file, whose number is an `int64`. -/
structure Content where
  data : Bytes
  sized : data.length < 2 ^ 63

/-- An open blob: its bytes, how its reader hands them out, how the compressor's pipe hands out the
compressed ones, and whether it is a file that can seek.
-/
structure OpenBlob where
  blob : Content
  chunks : List (Chunk GoError)
  pipeChunks : List (Chunk GoError)
  seekable : Bool

def OpenBlob.reader (rc : OpenBlob) : Reader UInt8 GoError where
  content := rc.blob.data
  position := 0
  chunks := rc.chunks

def OpenBlob.compressed (rc : OpenBlob) (compress : Content → Content)
    : Reader UInt8 GoError where
  content := (compress rc.blob).data
  position := 0
  chunks := rc.pipeChunks

/-- What `Read` meets outside: the store, the errors that `os.IsNotExist` accepts, the compressor,
and the error of each `Send`, by the number of messages sent before.
-/
structure ReadServer where
  get : Digest → Except GoError OpenBlob
  isNotExist : GoError → Bool
  compress : Content → Content
  sendError : Nat → Option GoError

namespace ReadServer

variable (server : ReadServer)

/-- How a `Read` went: its status and the messages it sent, or nothing when the bound on the loop
was too low.
-/
abbrev Outcome := Option (Except GoError Unit × List Bytes)

def skipError (text : String) (err : Option GoError) : GoError :=
  .status .internal (text ++ (err.map GoError.text).getD "EOF")

def skipOffset (isCompressed seekable : Bool) (readOffset : Int) (reader : Reader UInt8 GoError)
    : Option (Except GoError (Reader UInt8 GoError)) :=
  if 0 < readOffset then
    if isCompressed then
      (reader.skip (reader.bound + 1) readOffset.toNat).map
        (Except.mapError (skipError "failed to skip offset in compressed stream: "))
    else if seekable then
      some (.ok (reader.seek readOffset.toNat))
    else
      (reader.skip (reader.bound + 1) readOffset.toNat).map
        (Except.mapError (skipError "failed to skip offset: "))
  else
    some (.ok reader)

def sendLoop (limit : Nat) : Nat → Nat → List Bytes → Reader UInt8 GoError → Outcome
  | 0, _, _, _ => none
  | fuel + 1, totalSent, sent, reader =>
      if totalSent < limit then
        match reader.read (min Backend.readBufferSize (limit - totalSent)) with
        | (data, ends, after) =>
            match (if data = [] then none else server.sendError sent.length) with
            | some err => some (.error err, sent)
            | none =>
                let sent := if data = [] then sent else sent ++ [data]
                match ends with
                | .more => sendLoop limit fuel (totalSent + data.length) sent after
                | .eof => some (.ok (), sent)
                | .failed err =>
                    some (.error (.status .internal ("read error: " ++ err.text)), sent)
      else
        some (.ok (), sent)

/-- The limit of a request, or the greatest `int64`. -/
def limitOf (readLimit : Int) : Nat :=
  if 0 < readLimit then readLimit.toNat else 2 ^ 63 - 1

def read (req : ReadRequest) : Outcome :=
  match parseResourceName req.resourceName false with
  | .error err => some (.error err, [])
  | .ok (dg, isCompressed) =>
      match server.get dg with
      | .error err =>
          if server.isNotExist err || err.code? = some .notFound then
            some (.error (.status .notFound
              ("blob not found: " ++ dg.hash ++ "/" ++ toString dg.sizeBytes)), [])
          else
            some (.error (.status .internal ("failed to get blob: " ++ err.text)), [])
      | .ok rc =>
          let reader := if isCompressed then rc.compressed server.compress else rc.reader
          match skipOffset isCompressed rc.seekable req.readOffset reader with
          | none => none
          | some (.error err) => some (.error err, [])
          | some (.ok reader) =>
              server.sendLoop (limitOf req.readLimit) (reader.bound + 1) 0 [] reader

def Fit (messages : List Bytes) : Prop :=
  ∀ message ∈ messages, message ≠ [] ∧ message.length ≤ 64 * 1024

variable {server} {reader : Reader UInt8 GoError} {limit fuel totalSent : Nat} {sent : List Bytes}

/-- The loop sends what is left up to the limit, by induction on the bound of the calls. -/
theorem sendLoop_spec (takes : ∀ count, server.sendError count = none) (sound : reader.Sound)
    (enough : reader.bound < fuel)
    : ∃ messages, server.sendLoop limit fuel totalSent sent reader
          = some (.ok (), sent ++ messages)
        ∧ Fit messages ∧ messages.flatten = reader.left.take (limit - totalSent) := by
  induction fuel generalizing reader totalSent sent with
  | zero => cases enough
  | succ fuel ih =>
      rw [sendLoop]
      split
      next room =>
        obtain ⟨data, ends, after, ran, reads⟩ :=
          Reader.read_reads sound (Nat.lt_min.mpr
            ⟨(by decide : 0 < Backend.readBufferSize), Nat.sub_pos_of_lt room⟩)
        have fits : data.length ≤ limit - totalSent :=
          Nat.le_trans reads.fits (Nat.min_le_right _ _)
        -- what the turn itself sends
        obtain ⟨own, sends, ownFit, ownData⟩ : ∃ own,
            (if data = [] then sent else sent ++ [data]) = sent ++ own
              ∧ Fit own ∧ own.flatten = data := by
          by_cases empty : data = []
          · exact ⟨[], by rw [if_pos empty, List.append_nil], fun _ => nofun, empty.symm⟩
          · refine ⟨[data], if_neg empty, ?_, by simp⟩
            intro message held
            rw [List.mem_singleton.mp held]
            exact ⟨empty, Nat.le_trans reads.fits (Nat.min_le_left _ _)⟩
        have taken : (if data = [] then none else server.sendError sent.length) = none := by
          split
          · rfl
          · exact takes _
        rw [ran]
        dsimp only
        rw [taken]
        dsimp only
        rw [sends]
        cases ends with
        | failed err => exact absurd rfl (reads.clean err)
        | eof =>
            refine ⟨own, rfl, ownFit, ?_⟩
            rw [ownData, reads.taken, reads.atEnd rfl, List.append_nil,
              List.take_of_length_le fits]
        | more =>
            have fewer := reads.fewer rfl
            obtain ⟨messages, sentAll, fit, flat⟩ :=
              @ih after (totalSent + data.length) (sent ++ own) reads.sound (by omega)
            refine ⟨own ++ messages, by rw [← List.append_assoc]; exact sentAll, ?_, ?_⟩
            · intro message held
              exact (List.mem_append.mp held).elim (ownFit message) (fit message)
            · rw [List.flatten_append, ownData, flat, reads.taken, List.take_append,
                List.take_of_length_le fits, Nat.sub_add_eq]
      next full =>
        refine ⟨[], by rw [List.append_nil], fun _ => nofun, ?_⟩
        rw [Nat.sub_eq_zero_of_le (by omega)]
        rfl

def window (data : Bytes) (req : ReadRequest) : Bytes :=
  if req.readLimit = 0 then
    data.drop req.readOffset.toNat
  else
    (data.drop req.readOffset.toNat).take req.readLimit.toNat

variable {req : ReadRequest} {dg : Digest} {rc : OpenBlob} {isCompressed : Bool}

theorem take_limitOf {data : Bytes} (sized : data.length < 2 ^ 63) (limits : 0 ≤ req.readLimit)
    : (data.drop req.readOffset.toNat).take (limitOf req.readLimit) = window data req := by
  unfold limitOf window
  by_cases none_ : req.readLimit = 0
  · have short : (data.drop req.readOffset.toNat).length ≤ 2 ^ 63 - 1 := by
      rw [List.length_drop]
      omega
    rw [if_pos none_, none_, if_neg (by decide), List.take_of_length_le short]
  · rw [if_neg none_, if_pos (by omega)]

theorem skipOffset_within (isCompressed seekable : Bool) (fresh : reader.position = 0) (sound : reader.Sound)
    (lower : 0 ≤ req.readOffset) (upper : req.readOffset ≤ reader.content.length)
    : ∃ after, skipOffset isCompressed seekable req.readOffset reader = some (.ok after)
        ∧ after.left = reader.content.drop req.readOffset.toNat ∧ after.Sound := by
  have whole : reader.left = reader.content := by rw [Reader.left, fresh, List.drop_zero]
  have inside : req.readOffset.toNat ≤ reader.left.length := by
    rw [whole]
    omega
  obtain ⟨after, skipped, left, afterSound, -⟩ :=
    (Reader.skip_spec sound (Nat.lt_succ_self reader.bound)).1 inside
  rw [whole] at left
  unfold skipOffset
  split
  next =>
    rw [skipped]
    split
    next => exact ⟨after, rfl, left, afterSound⟩
    next =>
      split
      next => exact ⟨reader.seek req.readOffset.toNat, rfl, rfl, sound⟩
      next => exact ⟨after, rfl, left, afterSound⟩
  next zero =>
    have none_ : req.readOffset.toNat = 0 := by omega
    exact ⟨reader, rfl, by rw [whole, none_, List.drop_zero], sound⟩

theorem read_within (reader : Reader UInt8 GoError) (content : Content)
    (takes : ∀ count, server.sendError count = none)
    (parsed : parseResourceName req.resourceName false = .ok (dg, isCompressed))
    (found : server.get dg = .ok rc)
    (whose : (if isCompressed then rc.compressed server.compress else rc.reader) = reader)
    (held : reader.content = content.data) (fresh : reader.position = 0) (sound : reader.Sound)
    (lower : 0 ≤ req.readOffset) (upper : req.readOffset ≤ content.data.length)
    (limits : 0 ≤ req.readLimit)
    : ∃ messages, server.read req = some (.ok (), messages) ∧ Fit messages
        ∧ messages.flatten = window content.data req := by
  obtain ⟨after, skipped, left, afterSound⟩ :=
    skipOffset_within isCompressed rc.seekable fresh sound lower (held ▸ upper)
  obtain ⟨messages, sends, fit, flat⟩ := @sendLoop_spec server after (limitOf req.readLimit)
    (after.bound + 1) 0 [] takes afterSound (Nat.lt_succ_self after.bound)
  refine ⟨messages, ?_, fit, ?_⟩
  · simp only [read, parsed, found, whose, skipped]
    exact sends
  · rw [flat, left, held, Nat.sub_zero, take_limitOf content.sized limits]

/-- Where the offset is skipped by reading, there is an error beyond the end. -/
theorem read_beyond (reader : Reader UInt8 GoError)
    (parsed : parseResourceName req.resourceName false = .ok (dg, isCompressed))
    (found : server.get dg = .ok rc)
    (whose : (if isCompressed then rc.compressed server.compress else rc.reader) = reader)
    (fresh : reader.position = 0) (sound : reader.Sound)
    (skips : isCompressed = true ∨ rc.seekable = false)
    (beyond : reader.content.length < req.readOffset)
    : ∃ err, server.read req = some (.error err, []) := by
  have outside : reader.left.length < req.readOffset.toNat := by
    rw [Reader.left, fresh, List.drop_zero]
    omega
  have skipped := (Reader.skip_spec sound (Nat.lt_succ_self reader.bound)).2 outside
  obtain ⟨err, failed⟩ : ∃ err, skipOffset isCompressed rc.seekable req.readOffset reader
      = some (.error err) := by
    rw [skipOffset, if_pos (by omega), skipped]
    rcases skips with rfl | streams
    · exact ⟨_, rfl⟩
    · rw [streams]
      cases isCompressed <;> exact ⟨_, rfl⟩
  exact ⟨err, by simp only [read, parsed, found, whose, failed]⟩

/-- A file seeks to every offset. -/
theorem read_seeks (takes : ∀ count, server.sendError count = none)
    (parsed : parseResourceName req.resourceName false = .ok (dg, false))
    (found : server.get dg = .ok rc) (seeks : rc.seekable = true)
    (sound : ∀ chunk ∈ rc.chunks, ∀ err, chunk.ends ≠ .failed err) (positive : 0 < req.readOffset)
    : ∃ messages, server.read req = some (.ok (), messages) := by
  have skipped : skipOffset false rc.seekable req.readOffset rc.reader
      = some (.ok (rc.reader.seek req.readOffset.toNat)) := by
    rw [skipOffset, if_pos positive, seeks]
    rfl
  obtain ⟨messages, sends, -, -⟩ := @sendLoop_spec server (rc.reader.seek req.readOffset.toNat)
    (limitOf req.readLimit) _ 0 [] takes sound (Nat.lt_succ_self _)
  refine ⟨messages, ?_⟩
  simp only [read, parsed, found, Bool.false_eq_true, if_false, skipped]
  exact sends

def sampleBlob (seekable : Bool) : OpenBlob where
  blob := ⟨[1, 2, 3, 4, 5], by decide⟩
  chunks := [⟨0, .more⟩, ⟨2, .more⟩, ⟨9, .eof⟩]
  pipeChunks := [⟨3, .more⟩]
  seekable := seekable

/-- A store with that blob, and a compressor that writes the bytes backwards. -/
def sampleServer (seekable : Bool) : ReadServer where
  get _ := .ok (sampleBlob seekable)
  isNotExist _ := false
  compress content := ⟨content.data.reverse, by rw [List.length_reverse]; exact content.sized⟩
  sendError _ := none

theorem sampleBlob_sound (seekable : Bool)
    : ∀ chunk ∈ (sampleBlob seekable).chunks, ∀ err, chunk.ends ≠ .failed err := by
  intro chunk held err
  simp only [sampleBlob, List.mem_cons, List.not_mem_nil, or_false] at held
  rcases held with rfl | rfl | rfl <;> nofun

theorem parse_sampleName
    : parseResourceName "blobs/ab/5" false = .ok (⟨"ab", 5⟩, false) := by
  decide

theorem parse_sampleCompressedName
    : parseResourceName "compressed-blobs/zstd/ab/5" false = .ok (⟨"ab", 5⟩, true) := by
  decide

/-- `Read` of an uncompressed blob returns without an error and sends exactly the bytes that were
asked for, in messages that are not empty and have at most 64 KiB, however the reader hands them
out and whether it can seek or not.
-/
theorem read_sends_window (server : ReadServer) (req : ReadRequest) (dg : Digest) (rc : OpenBlob)
    (takes : ∀ count, server.sendError count = none)
    (parsed : parseResourceName req.resourceName false = .ok (dg, false))
    (found : server.get dg = .ok rc)
    (sound : ∀ chunk ∈ rc.chunks, ∀ err, chunk.ends ≠ .failed err)
    (lower : 0 ≤ req.readOffset) (upper : req.readOffset ≤ rc.blob.data.length)
    (limits : 0 ≤ req.readLimit)
    : ∃ messages, server.read req = some (.ok (), messages)
        ∧ (∀ message ∈ messages, message ≠ [] ∧ message.length ≤ 64 * 1024)
        ∧ messages.flatten
          = if req.readLimit = 0 then
              rc.blob.data.drop req.readOffset.toNat
            else
              (rc.blob.data.drop req.readOffset.toNat).take req.readLimit.toNat :=
  read_within rc.reader rc.blob takes parsed found rfl rfl rfl sound lower upper limits

/-- A window in the middle of the sample blob, from a stream. -/
theorem sample_window_sent
    : ∃ messages, (sampleServer false).read ⟨"blobs/ab/5", 1, 3⟩ = some (.ok (), messages)
        ∧ messages.flatten = [2, 3, 4] := by
  obtain ⟨messages, ran, -, flat⟩ := read_sends_window (sampleServer false) ⟨"blobs/ab/5", 1, 3⟩
    ⟨"ab", 5⟩ (sampleBlob false) (fun _ => rfl) parse_sampleName rfl (sampleBlob_sound false)
    (by decide) (by decide) (by decide)
  exact ⟨messages, ran, flat⟩

/-- What a client sees of a `Read`: its status and the joined data. -/
def observed (outcome : Outcome) : Option (Except GoError Unit × Bytes) :=
  outcome.map (fun ended => (ended.1, ended.2.flatten))

/-- The compressor that swaps a blob with the empty one. -/
def swapping (blob content : Content) : Content :=
  if content.data = blob.data then
    ⟨[], by decide⟩
  else if content.data = [] then
    blob
  else
    content

theorem swapping_swapping (blob content : Content)
    : (swapping blob (swapping blob content)).data = content.data := by
  simp only [swapping]
  split_ifs <;> simp_all

theorem swapping_self (blob : Content) : (swapping blob blob).data = [] := by
  rw [swapping, if_pos rfl]

/-- A compressed `Read` sends what a plain one does, with every compressor that has an inverse,
exactly when both start at the start of the blob. Elsewhere the bytes that are skipped are those of
the compressor's output, which may have none.
-/
theorem compressed_read_agrees (server : ReadServer) (plain compressed : ReadRequest) (dg : Digest)
    (rc : OpenBlob) (takes : ∀ count, server.sendError count = none)
    (parsed : parseResourceName plain.resourceName false = .ok (dg, false))
    (parsedCompressed : parseResourceName compressed.resourceName false = .ok (dg, true))
    (found : server.get dg = .ok rc)
    (sound : ∀ chunk ∈ rc.chunks, ∀ err, chunk.ends ≠ .failed err)
    (pipeSound : ∀ chunk ∈ rc.pipeChunks, ∀ err, chunk.ends ≠ .failed err)
    (lower : 0 ≤ plain.readOffset) (upper : plain.readOffset ≤ rc.blob.data.length)
    (sameOffset : compressed.readOffset = plain.readOffset)
    (unlimited : plain.readLimit = 0) (unlimitedCompressed : compressed.readLimit = 0)
    : (∀ (compress : Content → Content) (decompress : Bytes → Option Bytes),
        (∀ content, decompress (compress content).data = some content.data) →
          ∃ messages compressedMessages,
            ({ server with compress := compress }).read plain = some (.ok (), messages)
            ∧ ({ server with compress := compress }).read compressed
              = some (.ok (), compressedMessages)
            ∧ decompress compressedMessages.flatten = some messages.flatten)
      ↔ plain.readOffset = 0 := by
  refine ⟨fun agree => ?_, fun start compress decompress inverse => ?_⟩
  · by_contra later
    -- the swapped blob has no bytes to skip
    obtain ⟨messages, compressedMessages, -, ran, -⟩ := agree (swapping rc.blob)
      (fun data =>
        if short : data.length < 2 ^ 63 then some (swapping rc.blob ⟨data, short⟩).data else none)
      (fun content => by
        rw [dif_pos (swapping rc.blob content).sized]
        exact congrArg some (swapping_swapping rc.blob content))
    obtain ⟨err, failed⟩ := @read_beyond { server with compress := swapping rc.blob } compressed dg
      rc true (rc.compressed (swapping rc.blob)) parsedCompressed found rfl rfl pipeSound (.inl rfl)
      (by
        show ((swapping rc.blob rc.blob).data.length : Int) < _
        rw [swapping_self, sameOffset]
        exact lt_of_le_of_ne lower (Ne.symm later))
    rw [failed] at ran
    cases ran
  · obtain ⟨messages, ran, -, flat⟩ := @read_within { server with compress := compress } plain dg rc
      false rc.reader rc.blob takes parsed found rfl rfl rfl sound lower upper (by omega)
    obtain ⟨compressedMessages, ranCompressed, -, flatCompressed⟩ :=
      @read_within { server with compress := compress } compressed dg rc true
        (rc.compressed compress) (compress rc.blob) takes parsedCompressed found rfl rfl rfl
        pipeSound (by omega) (by omega) (by omega)
    refine ⟨messages, compressedMessages, ran, ranCompressed, ?_⟩
    rw [flat, flatCompressed, window, window, if_pos unlimited, if_pos unlimitedCompressed,
      sameOffset, start]
    exact inverse rc.blob

theorem sampleBlob_pipeSound (seekable : Bool)
    : ∀ chunk ∈ (sampleBlob seekable).pipeChunks, ∀ err, chunk.ends ≠ .failed err := by
  intro chunk held err
  obtain rfl := List.mem_singleton.mp held
  nofun

/-- The sample blob from the start, compressed and plain. -/
theorem sample_compressed_agrees
    : ∃ messages compressedMessages,
        (sampleServer false).read ⟨"blobs/ab/5", 0, 0⟩ = some (.ok (), messages)
        ∧ (sampleServer false).read ⟨"compressed-blobs/zstd/ab/5", 0, 0⟩
          = some (.ok (), compressedMessages)
        ∧ some compressedMessages.flatten.reverse = some messages.flatten := by
  have agree := compressed_read_agrees (sampleServer false) ⟨"blobs/ab/5", 0, 0⟩
    ⟨"compressed-blobs/zstd/ab/5", 0, 0⟩ ⟨"ab", 5⟩ (sampleBlob false) (fun _ => rfl)
    parse_sampleName parse_sampleCompressedName rfl (sampleBlob_sound false)
    (sampleBlob_pipeSound false) (by decide) (by decide) rfl rfl rfl
  exact agree.mpr rfl (sampleServer false).compress (fun data => some data.reverse)
    (fun content => congrArg some (List.reverse_reverse content.data))

/-- At offset two the compressed `Read` skips two bytes of the compressed blob, which are the last
two of the blob with this compressor, and a client does not get what the plain `Read` sends.
-/
theorem compressed_offset_differs
    : (∀ content, (fun data : Bytes => some data.reverse) ((sampleServer false).compress content).data
          = some content.data)
      ∧ observed ((sampleServer false).read ⟨"blobs/ab/5", 2, 0⟩) = some (.ok (), [3, 4, 5])
      ∧ (observed ((sampleServer false).read ⟨"compressed-blobs/zstd/ab/5", 2, 0⟩)).map
          (fun ended => (ended.1, ended.2.reverse)) = some (.ok (), [1, 2, 3]) := by
  refine ⟨fun content => congrArg some (List.reverse_reverse content.data), ?_, ?_⟩
  · decide
  · decide

/-- A file that can seek and a stream with the same bytes give the same result exactly up to the
end of the blob.
-/
theorem seek_and_skip_agree (server server' : ReadServer) (req : ReadRequest) (dg : Digest)
    (file stream : OpenBlob) (takes : ∀ count, server.sendError count = none)
    (takes' : ∀ count, server'.sendError count = none)
    (parsed : parseResourceName req.resourceName false = .ok (dg, false))
    (found : server.get dg = .ok file) (found' : server'.get dg = .ok stream)
    (same : stream.blob = file.blob) (seeks : file.seekable = true)
    (streams : stream.seekable = false)
    (sound : ∀ chunk ∈ file.chunks, ∀ err, chunk.ends ≠ .failed err)
    (sound' : ∀ chunk ∈ stream.chunks, ∀ err, chunk.ends ≠ .failed err)
    (lower : 0 ≤ req.readOffset) (limits : 0 ≤ req.readLimit)
    : observed (server'.read req) = observed (server.read req)
      ↔ req.readOffset ≤ file.blob.data.length := by
  refine ⟨fun agree => ?_, fun upper => ?_⟩
  · by_contra beyond
    obtain ⟨err, failed⟩ := read_beyond stream.reader parsed found' rfl rfl sound' (.inr streams)
      (by
        show (stream.blob.data.length : Int) < _
        rw [same]
        omega)
    obtain ⟨messages, ran⟩ := read_seeks takes parsed found seeks sound (by omega)
    rw [failed, ran] at agree
    cases agree
  · obtain ⟨messages, ran, -, flat⟩ := read_within file.reader file.blob takes parsed found rfl rfl
      rfl sound lower upper limits
    obtain ⟨messages', ran', -, flat'⟩ := read_within stream.reader stream.blob takes' parsed found'
      rfl rfl rfl sound' lower (same ▸ upper) limits
    rw [ran, ran', observed, observed, Option.map_some, Option.map_some, flat, flat', same]

/-- The window of the sample blob is the same from a file and from a stream. -/
theorem sample_seek_and_skip_agree
    : observed ((sampleServer false).read ⟨"blobs/ab/5", 5, 0⟩)
        = observed ((sampleServer true).read ⟨"blobs/ab/5", 5, 0⟩)
      ∧ observed ((sampleServer true).read ⟨"blobs/ab/5", 5, 0⟩) = some (.ok (), []) := by
  refine ⟨?_, by decide⟩
  exact (seek_and_skip_agree (sampleServer true) (sampleServer false) ⟨"blobs/ab/5", 5, 0⟩ ⟨"ab", 5⟩
    (sampleBlob true) (sampleBlob false) (fun _ => rfl) (fun _ => rfl) parse_sampleName rfl rfl rfl
    rfl rfl (sampleBlob_sound true) (sampleBlob_sound false) (by decide) (by decide)).mpr (by decide)

/-- Beyond the end a file is empty, and a stream is an error. -/
theorem beyond_end_differs
    : observed ((sampleServer true).read ⟨"blobs/ab/5", 6, 0⟩) = some (.ok (), [])
      ∧ observed ((sampleServer false).read ⟨"blobs/ab/5", 6, 0⟩)
        = some (.error (.status .internal "failed to skip offset: EOF"), []) := by
  refine ⟨?_, ?_⟩
  · decide
  · decide

end ReadServer

end GoREgo.Server
