import GoREgo.Lib.Reader
import GoREgo.Server.RemoteUpload

/-! `RemoteStore.Put` with and without compression, against a server that commits the whole blob:
which committed sizes it takes for a success.
-/

namespace GoREgo.RemoteStore

open Lib Server

/-- What `Put` meets outside: the resource name or its error, the error of opening the stream, the
error of each `Send`, by the number of messages sent before, and what `CloseAndRecv` returns for the
messages that were sent.
-/
structure Remote where
  resourceName : Except GoError String
  writeError : Option GoError
  sendError : Nat → Option GoError
  answer : List WriteRequest → Except GoError Int

namespace Remote

variable (remote : Remote) (compression : Bool) (digest : Digest)

/-- After a `Send` that failed: the server may have ended the stream early with a commit. -/
def afterSendError (err : GoError) (sent : List WriteRequest) : Option GoError :=
  match remote.answer sent with
  | .ok committedSize =>
      if isCommitSuccessful compression digest committedSize then none else some err
  | .error _ => some err

/-- After the end of the data: the last message, and the response of the server. -/
def finish (name : String) (offset : Int) (sent : List WriteRequest) : Option GoError :=
  match remote.sendError sent.length with
  | some err => remote.afterSendError compression digest err sent
  | none =>
      match remote.answer (sent ++ [Put.finishMessage name offset]) with
      | .error err => some err
      | .ok committedSize =>
          if isCommitSuccessful compression digest committedSize then
            none
          else
            some (.plain ("incomplete write: committed " ++ toString committedSize
              ++ ", expected " ++ toString digest.sizeBytes))

/-- The loop of `Put`, with a bound on its turns: the error that it returns. -/
def putLoop (name : String)
    : Nat → Int → List WriteRequest → Reader UInt8 GoError → Option (Option GoError)
  | 0, _, _, _ => none
  | fuel + 1, offset, sent, reader =>
      match reader.read (32 * 1024) with
      | (data, ends, after) =>
          match (if data = [] then none else remote.sendError sent.length) with
          | some err => some (remote.afterSendError compression digest err sent)
          | none =>
              let sent := if data = [] then sent else sent ++ [Put.dataMessage name offset data]
              let offset := int64 (offset + data.length)
              match ends with
              | .more => putLoop name fuel offset sent after
              | .eof => some (remote.finish compression digest name offset sent)
              | .failed err => some (some err)

/-- `RemoteStore.Put`, on the reader of the data or of the compressor's pipe. -/
def put (reader : Reader UInt8 GoError) : Option (Option GoError) :=
  match remote.resourceName with
  | .error err => some (some err)
  | .ok name =>
      match remote.writeError with
      | some err => some (some err)
      | none => remote.putLoop compression digest name (reader.bound + 1) 0 [] reader

/-- A server that commits the whole blob of `size` bytes. When the upload is finished it answers
with that size, with the number of bytes that it received, or with -1 for a compressed blob that it
had. When it ends the stream early it had the blob, and answers with its size or with -1.
-/
structure Commits (size : Nat) : Prop where
  finished : ∀ messages, finishes messages = true → ∃ committed, remote.answer messages = .ok committed
    ∧ (committed = size ∨ committed = (payload messages).length
      ∨ compression = true ∧ committed = -1)
  early : ∀ messages, (remote.sendError messages.length).isSome = true →
    ∃ committed, remote.answer messages = .ok committed
      ∧ (committed = size ∨ compression = true ∧ committed = -1)

variable {remote compression digest} {name : String} {sent : List WriteRequest} {offset : Int}
  {size : Nat} {content : Bytes}

theorem payload_append_finish (open_ : finishes sent = false) (last : WriteRequest)
    (finishing : last.finishWrite = true)
    : payload (sent ++ [last]) = (sent.map WriteRequest.data).flatten ++ last.data := by
  induction sent with
  | nil => simp [payload, finishing]
  | cons message rest ih =>
      simp only [finishes, List.any_cons, Bool.or_eq_false_iff] at open_
      rw [List.cons_append, payload, open_.1, ih open_.2]
      simp

structure Counts (compression : Bool) (digest : Digest) (size sentSize : Nat) : Prop where
  whole : isCommitSuccessful compression digest size = true
  sent : isCommitSuccessful compression digest sentSize = true
  skipped : compression = true → isCommitSuccessful compression digest (-1) = true

structure Sent (content : Bytes) (reader : Reader UInt8 GoError) (sent : List WriteRequest)
    : Prop where
  whole : content = (sent.map WriteRequest.data).flatten ++ reader.left
  unfinished : finishes sent = false

theorem afterSendError_none (commits : remote.Commits compression size)
    (counts : Counts compression digest size content.length) {err : GoError}
    (failed : remote.sendError sent.length = some err)
    : remote.afterSendError compression digest err sent = none := by
  obtain ⟨committed, answered, is⟩ := commits.early sent (by rw [failed]; rfl)
  simp only [afterSendError, answered]
  rcases is with rfl | ⟨zstd, rfl⟩
  · rw [if_pos counts.whole]
  · rw [if_pos (counts.skipped zstd)]

theorem finish_none (commits : remote.Commits compression size)
    (counts : Counts compression digest size content.length) {reader : Reader UInt8 GoError}
    (holds : Sent content reader sent) (atEnd : reader.left = [])
    : remote.finish compression digest name offset sent = none := by
  unfold finish
  cases failed : remote.sendError sent.length with
  | some err => exact afterSendError_none commits counts failed
  | none =>
      have ends : finishes (sent ++ [Put.finishMessage name offset]) = true := by
        simp [finishes, Put.finishMessage]
      have received : payload (sent ++ [Put.finishMessage name offset]) = content := by
        rw [payload_append_finish holds.unfinished _ rfl, holds.whole, atEnd]
        rfl
      obtain ⟨committed, answered, is⟩ := commits.finished _ ends
      rw [received] at is
      simp only [answered]
      rcases is with rfl | rfl | ⟨zstd, rfl⟩
      · rw [if_pos counts.whole]
      · rw [if_pos counts.sent]
      · rw [if_pos (counts.skipped zstd)]

/-- The loop ends without an error, by induction on the bound of the reads. -/
theorem putLoop_none {fuel : Nat} {reader : Reader UInt8 GoError}
    (commits : remote.Commits compression size)
    (counts : Counts compression digest size content.length) (sound : reader.Sound)
    (holds : Sent content reader sent) (enough : reader.bound < fuel)
    : remote.putLoop compression digest name fuel offset sent reader = some none := by
  induction fuel generalizing offset sent reader with
  | zero => cases enough
  | succ fuel ih =>
      obtain ⟨data, ends, after, ran, reads⟩ :=
        Reader.read_reads sound (by decide : 0 < 32 * 1024)
      rw [putLoop, ran]
      dsimp only
      cases failed : (if data = [] then none else remote.sendError sent.length) with
      | some err =>
          split at failed
          next => cases failed
          next => exact congrArg some (afterSendError_none commits counts failed)
      | none =>
          have next : Sent content after
              (if data = [] then sent else sent ++ [Put.dataMessage name offset data]) := by
            have whole := holds.whole
            rw [reads.taken] at whole
            split
            next empty =>
              rw [empty, List.nil_append] at whole
              exact ⟨whole, holds.unfinished⟩
            next =>
              refine ⟨by rw [whole]; simp [Put.dataMessage], ?_⟩
              have before := holds.unfinished
              simp only [finishes] at before ⊢
              simp [before, Put.dataMessage]
          dsimp only
          cases ends with
          | failed err => exact absurd rfl (reads.clean err)
          | eof => exact congrArg some (finish_none commits counts next (reads.atEnd rfl))
          | more =>
              have fewer := reads.fewer rfl
              exact ih reads.sound next (by omega)

/-- A compressor with its inverse, which writes nothing for the empty blob. -/
structure Zstd where
  encode : Bytes → Bytes
  decode : Bytes → Option Bytes
  inverse : ∀ data, decode (encode data) = some data
  empty : encode [] = []

theorem Zstd.encode_ne_nil (zstd : Zstd) {data : Bytes} (nonempty : data ≠ [])
    : zstd.encode data ≠ [] := by
  intro nothing
  have back := zstd.inverse data
  rw [nothing, ← zstd.empty, zstd.inverse] at back
  exact nonempty (Option.some.inj back).symm

def Zstd.transferred (zstd : Zstd) (compression : Bool) (data : Bytes) : Bytes :=
  if compression then zstd.encode data else data

theorem counts_of_nonempty (zstd : Zstd) {data : Bytes} (sized : digest.sizeBytes = data.length)
    (nonempty : compression = true → data ≠ [])
    : Counts compression digest data.length (zstd.transferred compression data).length := by
  cases compression with
  | false =>
      refine ⟨?_, ?_, nofun⟩
      · simp [isCommitSuccessful, sized]
      · simp [isCommitSuccessful, sized, Zstd.transferred]
  | true =>
      have some_ := nonempty rfl
      refine ⟨?_, ?_, fun _ => rfl⟩
      · simpa [isCommitSuccessful] using some_
      · simpa [isCommitSuccessful, Zstd.transferred] using zstd.encode_ne_nil some_

/-- The messages of an upload without data that the server gets to see: the last one, unless it has
ended the stream.
-/
def emptyUpload (remote : Remote) (name : String) : List WriteRequest :=
  if (remote.sendError 0).isSome then [] else [Put.finishMessage name 0]

/-- Without data the loop comes to its last message, by induction on the bound of the reads. -/
theorem putLoop_empty {fuel : Nat} {reader : Reader UInt8 GoError} (sound : reader.Sound)
    (empty : reader.left = []) (enough : reader.bound < fuel)
    : remote.putLoop compression digest name fuel 0 [] reader
      = some (remote.finish compression digest name 0 []) := by
  induction fuel generalizing reader with
  | zero => cases enough
  | succ fuel ih =>
      obtain ⟨data, ends, after, ran, reads⟩ :=
        Reader.read_reads sound (by decide : 0 < 32 * 1024)
      obtain ⟨rfl, left⟩ := List.append_eq_nil_iff.mp (reads.taken.symm.trans empty)
      rw [putLoop, ran]
      cases ends with
      | failed err => exact absurd rfl (reads.clean err)
      | eof => rfl
      | more =>
          have fewer := reads.fewer rfl
          exact ih reads.sound left (by omega)

/-- The compressed empty blob is recognised with the answer -1 only: the two sizes are zero. -/
theorem finish_empty_iff (commits : remote.Commits true 0)
    : remote.finish true digest name 0 [] = none ↔ remote.answer (remote.emptyUpload name) = .ok (-1) := by
  have recognised : ∀ (committed : Int) (err : GoError), committed = 0 ∨ committed = -1 →
      ((if isCommitSuccessful true digest committed then none else some err) = none
        ↔ committed = -1) := by
    rintro committed err (rfl | rfl) <;> simp [isCommitSuccessful]
  unfold finish emptyUpload
  cases failed : remote.sendError ([] : List WriteRequest).length with
  | some err =>
      obtain ⟨committed, answered, is⟩ := commits.early [] (by rw [failed]; rfl)
      simp only [afterSendError, Option.isSome_some, if_true, answered, Except.ok.injEq]
      exact recognised committed err (by simpa using is)
  | none =>
      obtain ⟨committed, answered, is⟩ := commits.finished [Put.finishMessage name 0] rfl
      have nothing : payload [Put.finishMessage name 0] = [] := rfl
      rw [nothing] at is
      simp only [Option.isSome_none, Bool.false_eq_true, if_false, List.nil_append, answered,
        Except.ok.injEq]
      exact recognised committed _ (by simpa using is)

/-- A complete upload is recognised as complete, with every committed size that a server may report,
exactly unless the blob is empty and compressed and the size is zero. The data come from any reader
that does not fail.
-/
theorem put_recognises_commit (remote : Remote) (zstd : Zstd) (compression : Bool) (digest : Digest)
    (data : Bytes) (chunks : List (Chunk GoError)) (name : String)
    (named : remote.resourceName = .ok name) (opened : remote.writeError = none)
    (sized : digest.sizeBytes = data.length)
    (sound : ∀ chunk ∈ chunks, ∀ err, chunk.ends ≠ .failed err)
    (commits : remote.Commits compression data.length)
    : remote.put compression digest
        { content := zstd.transferred compression data, position := 0, chunks := chunks } = some none
      ↔ compression = false ∨ data ≠ [] ∨ remote.answer (remote.emptyUpload name) = .ok (-1) := by
  simp only [put, named, opened]
  by_cases nonempty : compression = true → data ≠ []
  · have counts := counts_of_nonempty zstd sized nonempty
    refine iff_of_true (putLoop_none commits counts sound ⟨rfl, rfl⟩ (Nat.lt_succ_self _)) ?_
    cases compression with
    | false => exact .inl rfl
    | true => exact .inr (.inl (nonempty rfl))
  · obtain ⟨rfl, empty⟩ := Classical.not_imp.mp nonempty
    obtain rfl := not_not.mp empty
    have ends := @putLoop_empty remote true digest name _
      { content := zstd.transferred true [], position := 0, chunks := chunks } sound zstd.empty
      (Nat.lt_succ_self _)
    rw [ends, Option.some.injEq, finish_empty_iff commits]
    simp

def stored : Zstd where
  encode data := data
  decode data := some data
  inverse _ := rfl
  empty := rfl

def counting : Remote where
  resourceName := .ok "uploads/u/compressed-blobs/zstd/ab/3"
  writeError := none
  sendError _ := none
  answer messages := .ok (payload messages).length

/-- Three bytes, compressed, to a server that counts them. -/
theorem three_bytes_recognised
    : counting.put true ⟨"ab", 3⟩ { content := [1, 2, 3], position := 0, chunks := [] }
      = some none := by
  have commits : counting.Commits true [(1 : UInt8), 2, 3].length :=
    ⟨fun messages _ => ⟨_, rfl, .inr (.inl rfl)⟩, nofun⟩
  exact (put_recognises_commit counting stored true ⟨"ab", 3⟩ [1, 2, 3] []
    "uploads/u/compressed-blobs/zstd/ab/3" rfl rfl rfl (fun _ => nofun) commits).mpr
    (.inr (.inl (by decide)))

/-- The compressed empty blob is committed in whole, and `Put` fails. -/
theorem empty_blob_not_recognised
    : counting.Commits true 0
      ∧ counting.put true ⟨"ab", 0⟩ { content := stored.transferred true [], position := 0, chunks := [] }
        = some (some (.plain "incomplete write: committed 0, expected 0"))
      ∧ counting.put false ⟨"ab", 0⟩ { content := stored.transferred false [], position := 0, chunks := [] }
        = some none := by
  refine ⟨⟨fun messages _ => ⟨_, rfl, .inr (.inl rfl)⟩, nofun⟩, ?_, ?_⟩
  · decide
  · decide

end Remote

end GoREgo.RemoteStore
