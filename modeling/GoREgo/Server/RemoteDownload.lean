import GoREgo.Server.Read
import GoREgo.Server.RemoteUpload
import GoREgo.Server.ResourceNames

/-! `RemoteStore.Get`: a goroutine receives the messages of a `Read` and writes them to a pipe,
whose other end the caller reads and may close at any time.
-/

namespace GoREgo.RemoteStore

open Lib Server

/-- `ResourceName` of the client library, for the empty instance name of `NewRemoteStore`: it puts
slashes between the segments.
-/
structure Client where
  resourceName : List String → Except GoError String
  joins : ∀ segments, resourceName segments = .ok ("/".intercalate segments)

/-- The resource name that `Get` asks for. -/
def Client.getName (c : Client) (zstd : Bool) (digest : Digest) : Except GoError String :=
  c.resourceName
    [if zstd then "compressed-blobs/zstd" else "blobs", digest.hash, toString digest.sizeBytes]

/-- The goroutine of `Get`: at `Recv`, inside `pw.Write`, about to close the writer, or ended. -/
inductive Pump
  | recv
  | write
  | close (err : Option GoError)
  | done
deriving DecidableEq

/-- A `Get` that has returned its reader. `inbox` and `status` are what `Recv` has still to
return, `got` the bytes that the caller has read.
-/
structure Download where
  inbox : List Bytes
  status : Option GoError
  pump : Pump := .recv
  pipe : Pipe UInt8 GoError := {}
  cancelled : Bool := false
  got : Bytes := []

namespace Download

inductive Label
  | recv
  | recvCancelled
  | written
  | closeWriter
  | read (count : Nat)
  | cancel
  | closeReader

/-- One step. `Recv` fails from the cancellation on, but may still return what has arrived. The
caller's `Close` cancels before it closes the reader, and the context can end by itself.
-/
def step (s : Download) : Label → Option Download
  | .recv =>
      if s.pump = .recv then
        match s.inbox with
        | data :: rest =>
            (s.pipe.beginWrite data).map
              (fun pipe => { s with inbox := rest, pump := .write, pipe })
        | [] => some { s with pump := .close s.status }
      else
        none
  | .recvCancelled =>
      if s.pump = .recv ∧ s.cancelled = true then
        some { s with pump := .close (some (.status .canceled "context canceled")) }
      else
        none
  | .written =>
      s.pipe.endWrite.map
        (fun next => { s with pump := next.2.1.elim .recv (fun _ => .close none), pipe := next.2.2 })
  | .closeWriter =>
      -- the deferred `Close` has no effect after a `CloseWithError`
      match s.pump with
      | .close err =>
          some { s with pump := .done, pipe := s.pipe.closeWrite (err.map .other) }
      | _ => none
  | .read count =>
      (s.pipe.read count).map (fun next => { s with got := s.got ++ next.1, pipe := next.2 })
  | .cancel => some { s with cancelled := true }
  | .closeReader =>
      if s.cancelled = true then some { s with pipe := s.pipe.closeRead none } else none

def machine (messages : List Bytes) (status : Option GoError) : Machine Download Label where
  initial s := s = { inbox := messages, status }
  step := step

/-- Why the goroutine ends: with `io.EOF` after the whole of a stream that ended well, or because
the reader was closed; with an error of the stream or of a cancellation.
-/
def Ends (s : Download) : Option GoError → Prop
  | none => s.pipe.rerr = none → s.inbox = [] ∧ s.status = none
  | some err => s.status = some err ∨ s.cancelled = true

def Stands (s : Download) : Prop :=
  match s.pump with
  | .recv => s.pipe.write = none ∧ s.pipe.werr = none
  | .write => s.pipe.write ≠ none ∧ s.pipe.werr = none
  | .close err => (s.pipe.write = none ∧ s.pipe.werr = none) ∧ s.Ends err
  | .done =>
      s.pipe.write = none ∧ ∃ err, s.pipe.werr = some ((err.map .other).getD .eof) ∧ s.Ends err

/-- What every step keeps. Nothing is lost between the stream and the caller while the reader is
open, and only a caller that cancelled has closed it.
-/
structure Kept (data : Bytes) (status : Option GoError) (s : Download) : Prop where
  same : s.status = status
  front : s.got <+: data
  whole : s.pipe.rerr = none → s.got ++ s.pipe.rest ++ s.inbox.flatten = data
  stands : s.Stands
  asked : s.pipe.rerr ≠ none → s.cancelled = true

variable {messages : List Bytes} {status : Option GoError} {data : Bytes} {s s' : Download}

theorem kept_start : Kept messages.flatten status { inbox := messages, status } := by
  constructor <;> simp [Stands, Pipe.rest]

/-- Steps of the caller leave what the goroutine knows. -/
theorem Stands.frame (stands : s.Stands) {pipe : Pipe UInt8 GoError} {got : Bytes}
    {cancelled : Bool} (write : pipe.write = none ↔ s.pipe.write = none)
    (werr : pipe.werr = s.pipe.werr) (rerr : pipe.rerr = none → s.pipe.rerr = none)
    (cancels : s.cancelled = true → cancelled = true)
    : Stands { s with pipe, got, cancelled } := by
  have ends (err : Option GoError) (ends : s.Ends err)
      : Ends { s with pipe, got, cancelled } err := by
    cases err with
    | none => exact fun isOpen => ends (rerr isOpen)
    | some err => exact ends.imp_right cancels
  unfold Stands at stands ⊢
  dsimp only
  cases at_ : s.pump <;> simp only [at_, werr, write, ne_eq] at stands ⊢
  case close err => exact stands.imp_right (ends err)
  case done => exact stands.imp_right (Exists.imp fun err => And.imp_right (ends err))
  all_goals exact stands

theorem Kept.recv (kept : Kept data status s) (taken : s.step .recv = some s')
    : Kept data status s' := by
  obtain ⟨at_, taken⟩ := Option.ite_none_right_eq_some.mp taken
  have stands := kept.stands
  simp only [Stands, at_] at stands
  obtain ⟨idle, unclosed⟩ := stands
  have whole := kept.whole
  rw [Pipe.rest_idle idle, List.append_nil] at whole
  split at taken
  next head rest inbox =>
    obtain ⟨pipe, begun, rfl⟩ := Option.map_eq_some_iff.mp taken
    obtain ⟨-, rfl⟩ := Pipe.beginWrite_spec begun
    refine { kept with whole := fun isOpen => ?_, stands := ?_ }
    · simpa [inbox, Pipe.rest] using whole isOpen
    · simp [Stands, unclosed]
  next inbox =>
    obtain rfl := Option.some.inj taken
    refine { kept with stands := ⟨⟨idle, unclosed⟩, ?_⟩ }
    cases ends : s.status with
    | none => exact fun _ => ⟨inbox, rfl⟩
    | some err => exact .inl rfl

theorem Kept.written (kept : Kept data status s) (taken : s.step .written = some s')
    : Kept data status s' := by
  obtain ⟨⟨sent, err, pipe⟩, ended, rfl⟩ := Option.map_eq_some_iff.mp taken
  obtain ⟨busy, -, rfl, left⟩ := Pipe.endWrite_spec ended
  have stands := kept.stands
  unfold Stands at stands
  cases at_ : s.pump with
  | write =>
      simp only [at_] at stands
      rcases left with ⟨rfl, empty⟩ | ⟨rfl, closed, -⟩
      · refine { kept with whole := fun isOpen => ?_, stands := ⟨rfl, stands.2⟩ }
        simpa [Pipe.rest_idle, empty] using kept.whole isOpen
      · -- only the caller's end can have been closed
        have gone : s.pipe.rerr ≠ none := by
          intro isOpen
          simp [Pipe.isClosed, isOpen, stands.2] at closed
        exact { kept with
          whole := fun isOpen => absurd isOpen gone
          stands := ⟨⟨rfl, stands.2⟩, fun isOpen => absurd isOpen gone⟩ }
  | recv | close | done => simp_all

theorem Kept.read (kept : Kept data status s) {count : Nat}
    (taken : s.step (.read count) = some s')
    : Kept data status s' := by
  obtain ⟨⟨chunk, pipe⟩, read, rfl⟩ := Option.map_eq_some_iff.mp taken
  obtain ⟨unclosed, busy, moved, -, rerr, werr⟩ := Pipe.read_spec read
  have isOpen : s.pipe.rerr = none ∧ s.pipe.werr = none := by
    simpa [Pipe.isClosed] using unclosed
  have whole : s.got ++ chunk ++ pipe.rest ++ s.inbox.flatten = data := by
    have before := kept.whole isOpen.1
    rwa [moved, ← List.append_assoc s.got] at before
  have inside : pipe.write = none ↔ s.pipe.write = none := by
    simp [← Option.not_isSome_iff_eq_none, (Pipe.read_busy read).1, busy]
  exact { kept with
    front := ⟨_, (List.append_assoc ..).symm.trans whole⟩
    whole := fun _ => whole
    stands := kept.stands.frame inside werr (fun _ => isOpen.1) id
    asked := by simp [rerr, isOpen.1] }

/-- The caller is told `io.EOF` only by a goroutine that had nothing more to write. -/
theorem Kept.readEnd (kept : Kept data status s) (eof : s.pipe.readEnd = some .eof)
    : s.got = data ∧ status = none := by
  obtain ⟨isOpen, closed⟩ := Pipe.readEnd_eof eof
  have stands := kept.stands
  unfold Stands at stands
  cases at_ : s.pump with
  | done =>
      simp only [at_, closed] at stands
      obtain ⟨idle, err, same, ends⟩ := stands
      cases err with
      | none =>
          obtain ⟨empty, clean⟩ := ends isOpen
          have whole := kept.whole isOpen
          rw [Pipe.rest_idle idle, empty] at whole
          exact ⟨by simpa using whole, kept.same.symm.trans clean⟩
      | some err => cases same
  | recv | write | close => simp [at_, closed] at stands

theorem Kept.step (kept : Kept data status s) {label : Label} (taken : s.step label = some s')
    : Kept data status s' := by
  have stands := kept.stands
  cases label with
  | recv => exact kept.recv taken
  | written => exact kept.written taken
  | read count => exact kept.read taken
  | recvCancelled =>
      obtain ⟨⟨at_, cancelled⟩, same⟩ := Option.ite_none_right_eq_some.mp taken
      obtain rfl := Option.some.inj same
      simp only [Stands, at_] at stands
      exact { kept with stands := ⟨stands, .inr cancelled⟩ }
  | closeWriter =>
      simp only [Download.step] at taken
      split at taken
      next err at_ =>
        obtain rfl := Option.some.inj taken
        simp only [Stands, at_] at stands
        have closed : (s.pipe.closeWrite (err.map .other)).werr
            = some ((err.map .other).getD .eof) := by
          simp [Pipe.closeWrite, stands.1.2]
        exact { kept with stands := ⟨stands.1.1, err, closed, stands.2⟩ }
      next => cases taken
  | cancel =>
      obtain rfl := Option.some.inj taken
      exact { kept with
        stands := stands.frame Iff.rfl rfl id (fun _ => rfl)
        asked := fun _ => rfl }
  | closeReader =>
      obtain ⟨cancelled, same⟩ := Option.ite_none_right_eq_some.mp taken
      obtain rfl := Option.some.inj same
      have closed : (s.pipe.closeRead none).rerr ≠ none := by
        cases before : s.pipe.rerr <;> simp [Pipe.closeRead, before]
      exact { kept with
        whole := fun isOpen => absurd isOpen closed
        stands := stands.frame Iff.rfl rfl (fun isOpen => absurd isOpen closed) id
        asked := fun _ => cancelled }

theorem kept_inductive
    : (machine messages status).Inductive Machine.anyStep (Kept messages.flatten status) where
  start s initial := by
    subst initial
    exact kept_start
  keeps _ _ _ kept _ taken := kept.step taken

def alone (_ : Download) : Label → Prop
  | .recvCancelled | .written | .closeWriter => True
  | _ => False

def reading (_ : Download) : Label → Prop
  | .cancel | .closeReader | .recvCancelled => False
  | _ => True

theorem step_closeWriter {err : Option GoError} (at_ : s.pump = .close err)
    : s.step .closeWriter
      = some { s with pump := .done, pipe := s.pipe.closeWrite (err.map .other) } := by
  simp [step, at_]

/-- Inside `pw.Write` the goroutine goes on, unless bytes wait for the caller. -/
theorem Kept.step_written (kept : Kept data status s) (at_ : s.pump = .write)
    (ready : s.pipe.rest = [] ∨ s.pipe.isClosed = true)
    : ∃ pump, s.step .written = some { s with pump, pipe := { s.pipe with write := none } }
        ∧ (pump = .recv ∨ pump = .close none) := by
  have stands := kept.stands
  simp only [Stands, at_] at stands
  obtain ⟨⟨sent, err, pipe⟩, ended⟩ := Option.isSome_iff_exists.mp
    (Pipe.endWrite_isSome (Option.isSome_iff_ne_none.mpr stands.1) ready)
  obtain ⟨-, -, rfl, -⟩ := Pipe.endWrite_spec ended
  refine ⟨_, congrArg (Option.map _) ended, ?_⟩
  cases err <;> simp

theorem closing {err : Option GoError} (at_ : s.pump = .close err)
    : ∃ labels s', (machine messages status).Run alone s labels s' ∧ s'.pump = .done :=
  ⟨[.closeWriter], _, .cons trivial (step_closeWriter at_) (.nil _), rfl⟩

theorem receiving (at_ : s.pump = .recv) (cancelled : s.cancelled = true)
    : ∃ labels s', (machine messages status).Run alone s labels s' ∧ s'.pump = .done := by
  let failed := { s with pump := .close (some (.status .canceled "context canceled")) }
  obtain ⟨labels, s', run, ended⟩ := closing (s := failed) rfl
  exact ⟨.recvCancelled :: labels, s', .cons trivial (if_pos ⟨at_, cancelled⟩) run, ended⟩

/-- Once the caller has closed the reader, the goroutine ends by itself. -/
theorem Kept.goroutine_ends (kept : Kept data status s) (closed : s.pipe.rerr ≠ none)
    : ∃ labels s', (machine messages status).Run alone s labels s' ∧ s'.pump = .done := by
  have cancelled := kept.asked closed
  cases at_ : s.pump with
  | done => exact ⟨[], s, .nil s, at_⟩
  | close err => exact closing at_
  | recv => exact receiving at_ cancelled
  | write =>
      have shut : s.pipe.isClosed = true := by
        simp [Pipe.isClosed, Option.isSome_iff_ne_none.mpr closed]
      obtain ⟨pump, taken, next⟩ := kept.step_written at_ (.inr shut)
      let after := { s with pump, pipe := { s.pipe with write := none } }
      obtain ⟨labels, s', run, ended⟩ :=
        next.elim (fun next => receiving (s := after) next cancelled) (closing (s := after))
      exact ⟨.written :: labels, s', .cons trivial taken run, ended⟩

def ahead (s : Download) : Nat :=
  2 * s.inbox.length + s.inbox.flatten.length + s.pipe.rest.length
    + (match s.pump with
      | .write => 3
      | .recv => 2
      | .close _ => 1
      | .done => 0)

theorem reading_uncancelled {label : Label} (reads : reading s label)
    (taken : s.step label = some s')
    : s'.cancelled = s.cancelled := by
  cases label with
  | cancel | closeReader | recvCancelled => exact reads.elim
  | recv =>
      obtain ⟨-, taken⟩ := Option.ite_none_right_eq_some.mp taken
      split at taken
      · obtain ⟨_, -, rfl⟩ := Option.map_eq_some_iff.mp taken
        rfl
      · obtain rfl := Option.some.inj taken
        rfl
  | closeWriter =>
      simp only [step] at taken
      split at taken
      · obtain rfl := Option.some.inj taken
        rfl
      · cases taken
  | written | read =>
      obtain ⟨_, -, rfl⟩ := Option.map_eq_some_iff.mp taken
      rfl

/-- A caller that goes on reading gets to the end of a stream that ends well. -/
theorem Kept.reads_on (kept : Kept data none s) (running : s.cancelled = false)
    : ∃ labels s', (machine messages none).Run reading s labels s'
        ∧ s'.pipe.readEnd = some .eof := by
  let invariant (s : Download) : Prop := Kept data none s ∧ s.cancelled = false
  have keeps (s : Download) (label : Label) (s' : Download) (holds : invariant s)
      (reads : reading s label) (taken : s.step label = some s')
      : invariant s' :=
    ⟨holds.1.step taken, (reading_uncancelled reads taken).trans holds.2⟩
  refine Machine.exists_run_to ahead keeps ?_ ⟨kept, running⟩
  rintro s ⟨kept, running⟩ unfinished
  have isOpen : s.pipe.rerr = none := by
    by_contra closed
    cases running.symm.trans (kept.asked closed)
  have stands := kept.stands
  cases at_ : s.pump with
  | close err =>
      refine ⟨.closeWriter, _, trivial, step_closeWriter at_, ?_⟩
      simp only [ahead, at_, Pipe.closeWrite, Pipe.rest]
      omega
  | write =>
      by_cases waiting : s.pipe.rest = []
      · obtain ⟨pump, taken, next⟩ := kept.step_written at_ (.inl waiting)
        refine ⟨.written, _, trivial, taken, ?_⟩
        rcases next with rfl | rfl
        · simp only [ahead, at_, Pipe.rest, List.length_nil]
          omega
        · simp only [ahead, at_, Pipe.rest, List.length_nil]
          omega
      · simp only [Stands, at_] at stands
        obtain ⟨chunk, pipe, read, some_⟩ :=
          Pipe.read_total (by simp [Pipe.isClosed, isOpen, stands.2]) waiting
        obtain ⟨-, -, moved, -⟩ := Pipe.read_spec read
        refine ⟨.read 1, _, trivial, congrArg (Option.map _) read, ?_⟩
        have shorter := List.length_pos_iff.mpr some_
        simp only [ahead, moved, List.length_append]
        omega
  | recv =>
      simp only [Stands, at_] at stands
      cases inbox : s.inbox with
      | nil =>
          refine ⟨.recv, { s with pump := .close s.status }, trivial, ?_, ?_⟩
          · exact (if_pos at_).trans (by rw [inbox])
          · simp only [ahead, at_]
            omega
      | cons head rest =>
          refine ⟨.recv, { s with inbox := rest, pump := .write, pipe := { s.pipe with
            write := some ⟨[], head⟩ } }, trivial, ?_, ?_⟩
          · refine (if_pos at_).trans ?_
            simp [inbox, Pipe.beginWrite, stands.1]
          · simp [ahead, at_, inbox, Pipe.rest, stands.1]
            omega
  | done =>
      simp only [Stands, at_] at stands
      obtain ⟨-, err, closed, ends⟩ := stands
      obtain rfl : err = none := by
        cases err with
        | none => rfl
        | some err => rcases ends with ends | ends <;> simp_all [kept.same]
      have told : s.pipe.readEnd = some .eof := by
        simp [Pipe.readEnd, Pipe.isClosed, Pipe.readCloseError, isOpen, closed]
      exact absurd told unfinished

/-- A download is never cut off unnoticed. What the caller has read is the beginning of the data;
where a `Read` returns `io.EOF` it is all of it, and the stream ended well. A goroutine whose
reader was closed ends without the server, and a caller that goes on reading a stream that ends
well comes to the end.
-/
theorem never_truncated (reach : (machine messages status).Reachable Machine.anyStep s)
    : s.got <+: messages.flatten
      ∧ (s.pipe.readEnd = some .eof → s.got = messages.flatten ∧ status = none)
      ∧ (s.pipe.rerr ≠ none →
          ∃ labels s', (machine messages status).Run alone s labels s' ∧ s'.pump = .done)
      ∧ (s.cancelled = false → status = none →
          ∃ labels s', (machine messages status).Run reading s labels s'
            ∧ s'.pipe.readEnd = some .eof) := by
  have kept := kept_inductive.reachable reach
  refine ⟨kept.front, kept.readEnd, kept.goroutine_ends, ?_⟩
  rintro running rfl
  exact kept.reads_on running

/-- A stream that breaks off after its first message, read to the error. -/
theorem broken_stream_seen
    : ∃ s, (machine [[1, 2]] (some (.plain "reset"))).Reachable Machine.anyStep s
        ∧ s.pipe.readEnd = some (.other (.plain "reset")) ∧ s.got <+: [1, 2] := by
  obtain ⟨s, run, tested⟩ := Machine.exists_run_of_exec
    (machine [[1, 2]] (some (.plain "reset")))
    ⟨[[1, 2]], some (.plain "reset"), .recv, {}, false, []⟩
    [.recv, .read 2, .written, .recv, .closeWriter]
    (fun s => s.pipe.readEnd = some (.other (.plain "reset"))) (by decide)
  have reach : (machine [[1, 2]] (some (.plain "reset"))).Reachable Machine.anyStep s :=
    ⟨_, _, rfl, run⟩
  exact ⟨s, reach, of_decide_eq_true tested, (never_truncated reach).1⟩

/-- The server reads the digest and the compression back from the name of a download. -/
theorem getName_parses (c : Client) (zstd : Bool) {digest : Digest} (named : Named digest)
    : ∃ name, c.getName zstd digest = .ok name
        ∧ parseResourceName name false = .ok (digest, zstd) := by
  refine ⟨_, c.joins _, ?_⟩
  have names : Resource.Names false ("/".intercalate
      [if zstd then "compressed-blobs/zstd" else "blobs", digest.hash, toString digest.sizeBytes]).toList
      [] zstd digest.hash.toList (Nat.toDigits 10 digest.sizeBytes.toNat) := by
    refine ⟨_, (List.nil_append _).symm, .inl rfl,
      ⟨?_, ?_, List.all_eq_true.mp named.hex, Nat.toDigits_ne_nil, ?_⟩, by simp⟩
    · rw [← named.size_digits]
      cases zstd <;> simp [Resource.kindText]
    · exact fun empty => named.nonempty (String.toList_eq_nil_iff.mp empty)
    · exact fun c member => Nat.isDigit_of_mem_toDigits (by decide) (by decide) member
  have small := named.small
  have nonneg := named.nonneg
  rw [← Resource.parseResourceName_eq, Resource.parseResourceName_of_names names,
    digitsValue_toDigits, if_pos (by omega), String.ofList_toList, Int.toNat_of_nonneg nonneg]

/-- What a server sends for the whole of a blob. -/
def payload (server : ReadServer) (zstd : Bool) (rc : OpenBlob) : Content :=
  if zstd then server.compress rc.blob else rc.blob

/-- Client and server agree on a download. Whatever the digest, the compression, the way in which
the server's reader returns the blob and the order of the steps: `Read` of the name that `Get`
asks for sends the blob; a caller that reads `io.EOF` has the blob; and as long as it does not
cancel, it can go on to read it.
-/
theorem download_agrees (c : Client) (server : ReadServer) (zstd : Bool) {digest : Digest}
    {rc : OpenBlob}
    (named : Named digest) (takes : ∀ count, server.sendError count = none)
    (found : server.get digest = .ok rc)
    (sound : ∀ chunk ∈ rc.chunks, ∀ err, chunk.ends ≠ .failed err)
    (pipeSound : ∀ chunk ∈ rc.pipeChunks, ∀ err, chunk.ends ≠ .failed err)
    : ∃ name messages, c.getName zstd digest = .ok name
        ∧ server.read ⟨name, 0, 0⟩ = some (.ok (), messages)
        ∧ ∀ s, (machine messages none).Reachable Machine.anyStep s →
            (s.pipe.readEnd = some .eof → s.got = (payload server zstd rc).data)
            ∧ (s.cancelled = false →
                ∃ labels s', (machine messages none).Run reading s labels s'
                  ∧ s'.pipe.readEnd = some .eof ∧ s'.got = (payload server zstd rc).data) := by
  obtain ⟨name, asked, parsed⟩ := getName_parses c zstd named
  obtain ⟨messages, ran, -, flat⟩ := @ReadServer.read_within server
    ⟨name, 0, 0⟩ digest rc zstd _ (payload server zstd rc) takes parsed found rfl (by cases zstd <;> rfl) (by cases zstd <;> rfl)
    (by cases zstd; exacts [sound, pipeSound]) (Int.le_refl 0) (Int.natCast_nonneg _) (Int.le_refl 0)
  rw [ReadServer.window, if_pos rfl] at flat
  refine ⟨name, messages, asked, ran, fun s reach => ?_⟩
  have kept := kept_inductive.reachable reach
  refine ⟨fun eof => (kept.readEnd eof).1.trans flat, fun running => ?_⟩
  obtain ⟨labels, s', run, eof⟩ := kept.reads_on running
  have after := kept_inductive.reachable (reach.after run.unguarded)
  exact ⟨labels, s', run, eof, (after.readEnd eof).1.trans flat⟩

def joining : Client where
  resourceName segments := .ok ("/".intercalate segments)
  joins _ := rfl

/-- The sample blob, downloaded without compression. -/
theorem sampleBlob_downloaded
    : ∃ name messages, joining.getName false ⟨"ab", 5⟩ = .ok name
        ∧ (ReadServer.sampleServer true).read ⟨name, 0, 0⟩ = some (.ok (), messages)
        ∧ ∃ labels s, (machine messages none).Run reading
              ⟨messages, none, .recv, {}, false, []⟩ labels s ∧ s.got = [1, 2, 3, 4, 5] := by
  have named : Named ⟨"ab", 5⟩ := ⟨by decide, by decide, by decide, by decide⟩
  obtain ⟨name, messages, asked, ran, agrees⟩ := download_agrees joining
    (ReadServer.sampleServer true) false named (fun _ => rfl) rfl (ReadServer.sampleBlob_sound true)
    (ReadServer.sampleBlob_pipeSound true)
  obtain ⟨labels, s, run, -, got⟩ := (agrees _ (.start rfl)).2 rfl
  exact ⟨name, messages, asked, ran, labels, s, run, got⟩

end Download

end GoREgo.RemoteStore
