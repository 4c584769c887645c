import GoREgo.Server.ByteStream
import GoREgo.Storage.UploadFlow

/-! The invariant of a `Write` that must fail, because its stream breaks off or its payload
has another length than its resource name says: neither tier changes and nothing succeeds.
-/

namespace GoREgo

open Lib LocalStore

namespace LocalStore

def Put.ended : Put → Bool
  | .close _ => true
  | .rename _ => true
  | .chmod => true
  | .deferred _ err => err.isNone
  | .returned _ err => err.isNone
  | _ => false

/-- A filesystem call that succeeds does not change how the copy ended. Before a good end it
leaves the blobs alone, and the last one removes the temporary file.
-/
theorem Put.disk_ok {digest : Digest} {files files' : Files} {put put' : Put}
    (taken : put.disk digest files .ok = some (files', put'))
    : put'.ended = put.ended
      ∧ (put.ended = false → files' = files)
      ∧ ∀ temp err, put' = .returned temp err → temp = none := by
  cases put with
  | copy written => cases taken
  | returned temp err => cases taken
  | _ =>
      obtain ⟨rfl, rfl⟩ := Prod.mk.inj (Option.some.inj taken)
      simp [Put.ended]

/-- A copy that ends with another error than `io.EOF`, or with another number of bytes than
the digest says, has not ended well and still has its temporary file to remove.
-/
theorem Put.endCopy_failed {digest : Digest} {written : Bytes} {err : IoError} {next : Put}
    (ends : (Put.copy written).endCopy digest err = some next)
    (differs : err = .eof → (written.length : Int) ≠ digest.sizeBytes)
    : next.ended = false ∧ ∀ temp err, next ≠ .returned temp err := by
  obtain ⟨_, same, ⟨isEof, sized, -⟩ | ⟨-, failure, rfl⟩⟩ := Put.endCopy_spec ends
  · obtain rfl := Put.copy.inj same
    exact absurd sized (differs isEof)
  · exact ⟨rfl, nofun⟩

end LocalStore

namespace Proxy

/-- Whether the tee's write is about to be cut off by an `io.EOF` of the remote `Put`, with
exactly the digest's number of bytes taken before.
-/
def Upload.cutAtSize (digest : Digest) (u : Upload) : Bool :=
  u.pipe.rerr == some .eof && !u.pipe.rest.isEmpty
    && decide ((u.received.length : Int) = digest.sizeBytes)

structure Upload.Unfinished (u : Upload) : Prop where
  unended : u.localPut.ended = false
  tidy : ∀ temp err, u.localPut = .returned temp err → temp = none

namespace Upload.Unfinished

variable {digest : Digest} {data rest rest' : Bytes} {tiers tiers' : Tiers} {u u' : Upload}

theorem returned_error (unfinished : u.Unfinished) {temp : Option Bytes}
    (returned : u.localPut = .returned temp none)
    : False := by
  have unended := unfinished.unended
  rw [returned] at unended
  cases unended

theorem effect (unfinished : u.Unfinished) (flow : u.Flow digest data rest) {event : Event}
    (left : Flight.remaining rest event = some rest')
    (effect : Effect digest tiers u event tiers' u')
    (works : ∀ err, event ≠ .disk (.fail err))
    (spares : event = .teeReturn → u.cutAtSize digest = false)
    (short : event = .source (.error .eof) → (data.length : Int) ≠ digest.sizeBytes)
    : u'.Unfinished ∧ tiers' = tiers := by
  cases effect with
  | @sourceEnds written err next copying idle ends =>
      obtain ⟨taken, spread⟩ := flow.copied copying
      obtain ⟨-, atEnd⟩ := Read.after_error left
      have differs : err = .eof → (written.length : Int) ≠ digest.sizeBytes := by
        rintro rfl
        rw [Pipe.sent_idle idle, List.append_nil] at taken
        rw [Pipe.rest_idle idle, atEnd rfl, List.append_nil, List.append_nil, taken] at spread
        exact spread ▸ short rfl
      obtain ⟨unended, away⟩ := Put.endCopy_failed ends differs
      exact ⟨⟨unended, fun temp err returned => absurd returned (away temp err)⟩, rfl⟩
  | @teeFails written next copying busy shut waiting ends =>
      obtain ⟨taken, -⟩ := flow.copied copying
      have differs : u.pipe.writeCloseError = .eof
          → ((written ++ u.pipe.sent).length : Int) ≠ digest.sizeBytes := by
        intro isEof sized
        have cut := spares rfl
        rw [← taken] at sized
        simp [cutAtSize, (Pipe.writeCloseError_eof isEof).2, waiting, sized] at cut
      obtain ⟨unended, away⟩ := Put.endCopy_failed ends differs
      exact ⟨⟨unended, fun temp err returned => absurd returned (away temp err)⟩, rfl⟩
  | copies => exact ⟨⟨rfl, nofun⟩, rfl⟩
  | @writes outcome files next idle taken =>
      cases outcome with
      | fail err => exact absurd rfl (works err)
      | ok =>
          obtain ⟨same, untouched, tidy⟩ := Put.disk_ok taken
          obtain rfl := untouched unfinished.unended
          exact ⟨⟨same.trans unfinished.unended, tidy⟩, rfl⟩
  | commits running seen =>
      obtain ⟨temp, returned⟩ := flow.seen seen
      exact (unfinished.returned_error returned).elim
  | _ => exact ⟨⟨unfinished.unended, unfinished.tidy⟩, rfl⟩

end Upload.Unfinished

end Proxy

namespace Server

open Proxy

/-- `rest` is what the goroutine has still to read of the payload. The pipe is open while the
handler is in its loop, and `io.EOF` is told only after a loop that ended well.
-/
def Writer.Left (stream : Stream) (s : Writer) (rest : Bytes) : Prop :=
  match s.handler with
  | .recv =>
      s.pipe = {} ∧ rest = payload s.inbox ∧ finishes stream.messages = finishes s.inbox
  | .writing finish =>
      s.pipe.isClosed = false
      ∧ s.pipe.write.isSome = true
      ∧ rest = s.pipe.rest ++ (if finish then [] else payload s.inbox)
      ∧ finishes stream.messages = (finish || finishes s.inbox)
  | .closing => s.pipe = {} ∧ rest = [] ∧ stream.aborts = false
  | .waiting => s.pipe = { werr := some .eof } ∧ rest = [] ∧ stream.aborts = false
  | .replying => s.pipe = { werr := some .eof } ∧ rest = [] ∧ stream.aborts = false
  | .deferred _ =>
      s.pipe.write = none ∧ (s.pipe.readEnd = some .eof → rest = [] ∧ stream.aborts = false)
  | .returned _ => s.pipe.write = none ∧ s.pipe.rerr.isSome = true

theorem open_idle {pipe : Pipe UInt8 GoError} (notClosed : pipe.isClosed = false)
    : ({ pipe with write := none } : Pipe UInt8 GoError) = {} := by
  rw [Pipe.isClosed, Bool.or_eq_false_iff] at notClosed
  obtain ⟨rerr, werr⟩ := notClosed
  rw [Option.isSome_eq_false_iff, Option.isNone_iff_eq_none] at rerr werr
  rw [rerr, werr]

namespace Writer.Left

variable {stream : Stream} {s : Writer} {rest : Bytes}

/-- `io.EOF` is told when the whole payload has been read and `Recv` has not failed. -/
theorem eof (left : s.Left stream rest) (ended : s.pipe.readEnd = some .eof)
    : rest = [] ∧ stream.aborts = false := by
  unfold Left at left
  split at left
  next => simp [left.1, Pipe.readEnd, Pipe.isClosed] at ended
  next => simp [left.1, Pipe.readEnd] at ended
  next => exact left.2
  next => exact left.2
  next => exact left.2
  next => exact left.2 ended
  next => simp [(Pipe.readEnd_eof ended).1] at left

theorem writing (left : s.Left stream rest) (busy : s.pipe.write.isSome = true)
    : ∃ finish, s.handler = .writing finish := by
  unfold Left at left
  split at left
  next => simp [left.1] at busy
  next finish at_ => exact ⟨finish, at_⟩
  next => simp [left.1] at busy
  next => simp [left.1] at busy
  next => simp [left.1] at busy
  next => simp [left.1] at busy
  next => simp [left.1] at busy

theorem read (left : s.Left stream rest) {count : Nat} {chunk : Bytes}
    {pipe : Pipe UInt8 GoError} (taken : s.pipe.read count = some (chunk, pipe))
    (store : PutCall)
    : ∃ rest', rest = chunk ++ rest' ∧ ({ s with pipe, store } : Writer).Left stream rest' := by
  obtain ⟨-, busy, waiting, -, rerr, werr⟩ := Pipe.read_spec taken
  obtain ⟨finish, at_⟩ := left.writing busy
  simp only [Left, at_] at left ⊢
  obtain ⟨notClosed, -, spread, finished⟩ := left
  refine ⟨_, by rw [spread, waiting, List.append_assoc], ?_, ?_, rfl, finished⟩
  · rw [Pipe.isClosed, rerr, werr]
    exact notClosed
  · exact (Pipe.read_busy taken).1

theorem resume {finish : Bool} (pipe : s.pipe = {})
    (spread : rest = if finish then [] else payload s.inbox)
    (finished : finishes stream.messages = (finish || finishes s.inbox))
    (at_ : s.handler = Call.resume finish)
    : s.Left stream rest := by
  cases finish with
  | true =>
      have handler : s.handler = .closing := at_
      simp only [Left, handler]
      exact ⟨pipe, spread, by simp [Stream.aborts, finished]⟩
  | false =>
      have handler : s.handler = .recv := at_
      simp only [Left, handler]
      exact ⟨pipe, spread, finished⟩

end Writer.Left

theorem Writer.Left.takeData {stream : Stream} {s : Writer} {call : Call Digest PutCall}
    {message : WriteRequest} (pipe : s.pipe = {})
    (finished : finishes stream.messages = finishes (message :: s.inbox))
    (taken : s.toCall.takeData message = some call)
    : ({ s with toCall := call } : Writer).Left stream (payload (message :: s.inbox)) := by
  rcases Call.takeData_spec taken with ⟨empty, rfl⟩ | ⟨-, rfl⟩
  · refine .resume pipe ?_ finished rfl
    rw [payload, empty, List.nil_append]
  · simp only [Left, pipe]
    exact ⟨rfl, rfl, rfl, finished⟩

/-- The stream names an uncompressed blob that neither tier has, and does not deliver it:
`Recv` fails before the upload is finished, or the payload has another length.
-/
structure Stream.Fails (stream : Stream) (digest : Digest) (tiers : Tiers) : Prop where
  named
    : ∃ first rest, stream.messages = first :: rest
        ∧ parseResourceName first.resourceName true = .ok (digest, false)
  localMissing : tiers.files digest.hash = none
  remoteMissing : ∀ size, tiers.remote ⟨digest.hash, size⟩ = none
  undelivered
    : stream.aborts = true
      ∨ ((payload stream.messages).length : Int) ≠ digest.sizeBytes

def Label.diskWorks : Label → Bool
  | .upload (.disk (.fail _)) => false
  | _ => true

/-- Whether a step ends the local copy at exactly the digest's number of bytes because the
remote `Put` has returned `io.EOF`, with more bytes waiting in the tee.
-/
def Writer.truncates (s : Writer) : Label → Bool
  | .upload .teeReturn =>
      match s.store, s.resource with
      | .flying u, some digest => u.cutAtSize digest
      | _, _ => false
  | _ => false

/-- Steps on a working disk that do not cut the local copy off at the digest's size. -/
def Writer.spares (s : Writer) (label : Label) : Prop :=
  label.diskWorks = true ∧ s.truncates label = false

instance (s : Writer) (label : Label) : Decidable (s.spares label) := by
  unfold Writer.spares
  infer_instance

def PutCall.Failing (digest : Digest) (data rest : Bytes) : PutCall → Prop
  | .idle => rest = data
  | .checking => rest = data
  | .draining => False
  | .flying u => u.Flow digest data rest ∧ u.Unfinished
  | .returned u err => u.localPut.temp = none ∧ err ≠ none

/-- A `Write` that must fail has changed neither tier and has not succeeded: its upload is of
the digest that the first message names and reads what the handler received.
-/
structure Writer.Failing (stream : Stream) (digest : Digest) (tiers : Tiers) (s : Writer)
    : Prop where
  tiers : s.tiers = tiers
  fresh
    : s.resource = none
      → s.store = .idle
        ∧ ((s.handler = .recv ∧ s.inbox = stream.messages)
          ∨ ∃ err, s.handler = .deferred err ∨ s.handler = .returned err)
  known : ∀ named, s.resource = some named → named = digest ∧ s.store ≠ .idle
  source : ∃ rest, s.Left stream rest ∧ s.store.Failing digest (payload stream.messages) rest
  error
    : s.handler ≠ .replying ∧ s.handler ≠ .deferred none ∧ s.handler ≠ .returned none

namespace Writer.Failing

variable {stream : Stream} {digest : Digest} {tiers : Tiers} {s s' : Writer}

theorem handler (failing : s.Failing stream digest tiers) (put : s'.store = s.store)
    (sameDigest : s'.resource = s.resource) (sameTiers : s'.tiers = s.tiers)
    (fresh
      : s.resource = none
        → (s'.handler = .recv ∧ s'.inbox = stream.messages)
          ∨ ∃ err, s'.handler = .deferred err ∨ s'.handler = .returned err)
    (left : ∀ rest, s.Left stream rest → s'.Left stream rest)
    (error
      : s'.handler ≠ .replying ∧ s'.handler ≠ .deferred none ∧ s'.handler ≠ .returned none)
    : s'.Failing stream digest tiers where
  tiers := sameTiers.trans failing.tiers
  fresh unnamed := by
    rw [sameDigest] at unnamed
    exact ⟨put.trans (failing.fresh unnamed).1, fresh unnamed⟩
  known named found := by
    rw [put]
    exact failing.known named (sameDigest ▸ found)
  source := by
    obtain ⟨rest, before, upload⟩ := failing.source
    rw [put]
    exact ⟨rest, left rest before, upload⟩
  error := error

theorem goroutine (failing : s.Failing stream digest tiers) {named : Digest}
    (found : s.resource = some named) {pipe : Pipe UInt8 GoError} {store : PutCall}
    (started : store ≠ .idle)
    (source
      : ∃ rest, ({ s with pipe, store } : Writer).Left stream rest
          ∧ store.Failing digest (payload stream.messages) rest)
    : ({ s with pipe, store } : Writer).Failing stream digest tiers where
  tiers := failing.tiers
  fresh unnamed := nomatch found.symm.trans unnamed
  known other same := ⟨(failing.known other same).1, started⟩
  source := source
  error := failing.error

theorem takeData {message : WriteRequest} {call : Call Digest PutCall}
    (taken : s.toCall.takeData message = some call)
    (sameTiers : s.tiers = tiers) (found : s.resource = some digest) (started : s.store ≠ .idle)
    (pipe : s.pipe = {})
    (finished : finishes stream.messages = finishes (message :: s.inbox))
    (upload
      : s.store.Failing digest (payload stream.messages) (payload (message :: s.inbox)))
    : ({ s with toCall := call } : Writer).Failing stream digest tiers := by
  have left := Left.takeData pipe finished taken
  have unnamed : s.resource ≠ none := by simp [found]
  have known : ∀ named, s.resource = some named → named = digest ∧ s.store ≠ .idle :=
    fun named same => ⟨Option.some.inj (same.symm.trans found), started⟩
  rcases Call.takeData_spec taken with ⟨-, rfl⟩ | ⟨-, rfl⟩
  · refine ⟨sameTiers, fun none => absurd none unnamed, known, ⟨_, left, upload⟩, ?_⟩
    cases message.finishWrite <;> simp [Call.resume]
  · exact ⟨sameTiers, fun none => absurd none unnamed, known, ⟨_, left, upload⟩,
      nofun, nofun, nofun⟩

theorem recv (failing : s.Failing stream digest tiers) (fails : stream.Fails digest tiers)
    (effect : Effect stream.failure s .recv s')
    : s'.Failing stream digest tiers := by
  obtain ⟨first, others, messages, parsed⟩ := fails.named
  have unread (at_ : s.handler = .recv) (unnamed : s.resource = none)
      : s.inbox = first :: others := by
    rcases (failing.fresh unnamed).2 with ⟨-, inbox⟩ | ⟨err, deferred | returned⟩
    · exact inbox.trans messages
    · cases at_.symm.trans deferred
    · cases at_.symm.trans returned
  have receiving (at_ : s.handler = .recv)
      : s.pipe = {}
        ∧ finishes stream.messages = finishes s.inbox
        ∧ s.store.Failing digest (payload stream.messages) (payload s.inbox) := by
    obtain ⟨rest, left, upload⟩ := failing.source
    simp only [Left, at_] at left
    obtain ⟨pipe, rfl, finished⟩ := left
    exact ⟨pipe, finished, upload⟩
  cases effect with
  | ended at_ empty clean =>
      refine failing.handler rfl rfl rfl ?_ ?_ ⟨by simp, by simp, by simp⟩
      · intro unnamed
        cases empty.symm.trans (unread at_ unnamed)
      · intro rest left
        simp only [Left, at_] at left
        obtain ⟨pipe, spread, finished⟩ := left
        rw [empty] at spread
        exact ⟨pipe, spread, by simp [Stream.aborts, clean]⟩
  | failed at_ | refused at_ =>
      obtain ⟨pipe, -⟩ := receiving at_
      refine failing.handler rfl rfl rfl (fun _ => Or.inr ⟨_, Or.inl rfl⟩) ?_
        ⟨by simp, by simp, by simp⟩
      intro rest _
      simp [Left, pipe, Pipe.readEnd, Pipe.isClosed]
  | @starts message inbox named call at_ next unnamed parses taken =>
      obtain ⟨rfl, rfl⟩ := List.cons.inj (next.symm.trans (unread at_ unnamed))
      have same := Except.ok.inj (parses.symm.trans parsed)
      obtain ⟨rfl, -⟩ := Prod.mk.inj same
      obtain ⟨pipe, finished, -⟩ := receiving at_
      rw [next] at finished
      refine takeData (s := { s with inbox, resource := some named, store := .checking }) taken
        failing.tiers rfl ?_ pipe finished ?_
      · intro idle
        cases idle
      · exact congrArg payload messages.symm
  | @continues message inbox named call at_ next found taken =>
      obtain ⟨pipe, finished, upload⟩ := receiving at_
      obtain ⟨rfl, started⟩ := failing.known named found
      rw [next] at finished upload
      exact takeData (s := { s with inbox }) taken failing.tiers found started pipe finished upload

end Writer.Failing

theorem PutCall.Failing.effect {stream : Stream} {digest : Digest} {tiers before after : Tiers}
    {u u' : Upload} {event : Upload.Event} {rest rest' : Bytes}
    (failing : (PutCall.flying u).Failing digest (payload stream.messages) rest)
    (fails : stream.Fails digest tiers)
    (remaining : Flight.remaining rest event = some rest')
    (effect : Upload.Effect digest before u event after u')
    (works : ∀ err, event ≠ .disk (.fail err))
    (spares : event = .teeReturn → u.cutAtSize digest = false)
    (clean : event = .source (.error .eof) → stream.aborts = false)
    : (PutCall.flying u').Failing digest (payload stream.messages) rest' ∧ after = before := by
  obtain ⟨flow, unfinished⟩ := failing
  have short (isEof : event = .source (.error .eof))
      : ((payload stream.messages).length : Int) ≠ digest.sizeBytes := by
    refine fails.undelivered.resolve_left ?_
    rw [clean isEof]
    exact Bool.false_ne_true
  obtain ⟨stays, same⟩ := unfinished.effect flow remaining effect works spares short
  exact ⟨⟨flow.effect remaining effect, stays⟩, same⟩

namespace Writer.Failing

variable {stream : Stream} {digest : Digest} {tiers : Tiers} {s s' : Writer} {label : Label}

/-- The handler knows the digest once it has left the first `Recv`, unless it gave up. -/
theorem named (failing : s.Failing stream digest tiers) (received : s.handler ≠ .recv)
    (running : ∀ err, s.handler ≠ .deferred err ∧ s.handler ≠ .returned err)
    : s.resource = some digest ∧ s.store ≠ .idle := by
  cases found : s.resource with
  | none =>
      rcases (failing.fresh found).2 with ⟨at_, -⟩ | ⟨err, deferred | returned⟩
      · exact absurd at_ received
      · exact absurd deferred (running err).1
      · exact absurd returned (running err).2
  | some other =>
      obtain ⟨rfl, started⟩ := failing.known other found
      exact ⟨rfl, started⟩

theorem wrote (failing : s.Failing stream digest tiers) {finish : Bool} {total : Nat}
    (at_ : s.handler = .writing finish) (all : s.pipe.rest = [])
    : ({ s with
        pipe := { s.pipe with write := none }
        totalWritten := total
        handler := Call.resume finish } : Writer).Failing stream digest tiers := by
  obtain ⟨found, -⟩ := failing.named (by simp [at_]) (by simp [at_])
  refine failing.handler rfl rfl rfl (by simp [found]) ?_ ?_
  · intro rest left
    simp only [Left, at_] at left
    obtain ⟨notClosed, -, spread, finished⟩ := left
    rw [all, List.nil_append] at spread
    exact .resume (open_idle notClosed) spread finished rfl
  · cases finish <;> simp [Call.resume]

theorem closeWriter (failing : s.Failing stream digest tiers) (at_ : s.handler = .closing)
    : ({ s with toCall := s.closeWriter } : Writer).Failing stream digest tiers := by
  obtain ⟨found, -⟩ := failing.named (by simp [at_]) (by simp [at_])
  refine failing.handler rfl rfl rfl (by simp [found]) ?_ (by simp [Call.closeWriter, found])
  intro rest left
  simp only [Left, at_] at left
  obtain ⟨pipe, ended⟩ := left
  simp only [Left, Call.closeWriter, found, Option.isSome_some, if_true, pipe]
  exact ⟨rfl, ended⟩

theorem givesUp (failing : s.Failing stream digest tiers) {err : GoError}
    (at_ : s.handler = .waiting)
    : ({ s with handler := .deferred (some err) } : Writer).Failing stream digest tiers := by
  refine failing.handler rfl rfl rfl (fun _ => Or.inr ⟨_, Or.inl rfl⟩) ?_
    ⟨nofun, nofun, nofun⟩
  intro rest left
  simp only [Left, at_] at left
  exact ⟨by rw [left.1], fun _ => left.2⟩

theorem close (failing : s.Failing stream digest tiers) {err : Option GoError}
    (at_ : s.handler = .deferred err)
    : ({ s with toCall := s.toCall.close err } : Writer).Failing stream digest tiers := by
  refine failing.handler rfl rfl rfl (fun _ => Or.inr ⟨_, Or.inr rfl⟩) ?_ ⟨nofun, nofun, ?_⟩
  · intro rest left
    simp only [Left, at_] at left
    refine ⟨left.1, ?_⟩
    cases closed : s.pipe.rerr <;> simp [Call.close, Pipe.closeRead, Pipe.closeWrite, closed]
  · intro same
    exact failing.error.2.1 (at_.trans (congrArg _ (Handler.returned.inj same)))

theorem effect (failing : s.Failing stream digest tiers) (fails : stream.Fails digest tiers)
    (spares : s.spares label) (effect : Effect stream.failure s label s')
    : s'.Failing stream digest tiers := by
  obtain ⟨rest, left, upload⟩ := failing.source
  cases effect with
  | ended at_ empty clean => exact failing.recv fails (.ended at_ empty clean)
  | failed at_ empty broken => exact failing.recv fails (.failed at_ empty broken)
  | refused at_ next unnamed => exact failing.recv fails (.refused at_ next unnamed)
  | starts at_ next unnamed parses taken =>
      exact failing.recv fails (.starts at_ next unnamed parses taken)
  | continues at_ next found taken => exact failing.recv fails (.continues at_ next found taken)
  | wrote at_ all => exact failing.wrote at_ all
  | writeFails at_ shut =>
      simp only [Left, at_] at left
      cases left.1.symm.trans shut
  | closes at_ => exact failing.closeWriter at_
  | succeeds at_ done =>
      rw [done] at upload
      exact absurd rfl upload.2
  | putFails at_ done => exact failing.givesUp at_
  | cancelled at_ => exact failing.givesUp at_
  | replies at_ => exact absurd at_ failing.error.1
  | returns at_ => exact failing.close at_
  | hits at_ found stored =>
      obtain ⟨rfl, -⟩ := failing.known _ found
      rw [failing.tiers, fails.localMissing] at stored
      cases stored
  | misses at_ found =>
      rw [at_] at upload
      obtain rfl : rest = payload stream.messages := upload
      exact failing.goroutine found (by simp)
        ⟨_, left, Upload.flow_new digest _, rfl, by simp⟩
  | drains at_ taken =>
      rw [at_] at upload
      exact upload.elim
  | drained at_ shut =>
      rw [at_] at upload
      exact upload.elim
  | @reads u named count chunk pipe u' at_ found taken effect =>
      obtain ⟨rfl, -⟩ := failing.known _ found
      obtain ⟨rest', spread, left'⟩ := left.read taken (.flying u')
      rw [at_] at upload
      have after : Flight.remaining rest (.source (.data chunk)) = some rest' := by
        simp [Flight.remaining, Read.after, spread]
      obtain ⟨upload', -⟩ := upload.effect fails after effect (by simp) (by simp) (by simp)
      exact failing.goroutine found (by simp) ⟨rest', left', upload'⟩
  | @sees u named err u' at_ found shut effect =>
      obtain ⟨rfl, -⟩ := failing.known _ found
      rw [at_] at upload
      have after : Flight.remaining rest (.source (.error err)) = some rest := by
        cases err with
        | eof =>
            obtain ⟨rfl, -⟩ := left.eof shut
            rfl
        | _ => rfl
      have clean : Upload.Event.source (.error err) = .source (.error .eof)
          → stream.aborts = false := by
        intro isEof
        cases isEof
        exact (left.eof shut).2
      obtain ⟨upload', -⟩ := upload.effect fails after effect (by simp) (by simp) clean
      exact failing.goroutine found (by simp) ⟨rest, left, upload'⟩
  | @uploads u named event after u' at_ found inner effect =>
      obtain ⟨rfl, -⟩ := failing.known _ found
      rw [at_] at upload
      have unread : Flight.remaining rest event = some rest := by
        cases event with
        | source read => exact absurd rfl (inner read)
        | _ => rfl
      have works : ∀ err, event ≠ .disk (.fail err) := by
        rintro err rfl
        cases spares.1
      have uncut : event = .teeReturn → u.cutAtSize named = false := by
        rintro rfl
        simpa only [truncates, at_, found] using spares.2
      obtain ⟨upload', rfl⟩ := upload.effect fails unread effect works uncut
        (fun isEof => absurd isEof (inner _))
      exact failing.goroutine found (by simp) ⟨rest, left, upload'⟩
  | @putReturns u err at_ ended =>
      rw [at_] at upload
      obtain ⟨temp, localErr, remoteErr, returned, -, ⟨rfl, -⟩ | ⟨failure, -, rfl⟩⟩ :=
        Upload.result_spec ended
      · exact (upload.2.returned_error returned).elim
      · obtain ⟨named, found⟩ : ∃ named, s.resource = some named := by
          refine Option.ne_none_iff_exists'.mp ?_
          intro unnamed
          cases at_.symm.trans (failing.fresh unnamed).1
        refine failing.goroutine found (by simp) ⟨rest, left, ?_, by simp⟩
        rw [returned, upload.2.tidy _ _ returned]
        rfl

end Writer.Failing

end Server

end GoREgo
