import GoREgo.Server.RemoteUpload

/-! `RemoteStore.Put` against `ByteStreamServer.Write`: the client's loop and the server's
handler with its goroutine, over a stream that is ordered and loses nothing. The server's
store reads its input to the end and accepts it exactly when it has the size in the digest.
-/

namespace GoREgo.UploadProtocol

open Lib Server RemoteStore

/-- An upload: the client's `Put`, the messages under way, whether the client has closed its
side of the stream, and the server's `Write`.
-/
structure Session where
  client : RemoteStore.Put
  queue : List WriteRequest := []
  closed : Bool := false
  call : WriteCall := { store := .idle }
deriving DecidableEq, Repr

/-- The steps of the client, the server's `Recv`, and its other steps. -/
inductive Session.Label
  | read
  | send
  | sendFails (err : GoError)
  | closeSend
  | response
  | recv
  | call (label : WriteCall.Label)
deriving DecidableEq, Repr

/-- What the client receives once the handler has returned: the response that it sent, or the
status of its error.
-/
def answer (call : WriteCall) : Option (Except GoError Int) :=
  match call.handler with
  | .returned none => some (.ok (int64 call.totalWritten))
  | .returned (some err) => some (.error err)
  | _ => none

/-- One step of the session. A `Send` fails only after the server has ended the stream, and
`Recv` reports the end of the messages only after the client has closed its side.
-/
def Session.step (name : String) (digest : Digest) (s : Session) : Label → Option Session
  | .read => (s.client.read name).map (fun client => { s with client })
  | .send =>
      (s.client.send name).map (fun next =>
        { s with queue := s.queue ++ [next.1], client := next.2 })
  | .sendFails err =>
      if (answer s.call).isSome then
        (s.client.sendFails err).map (fun client => { s with client })
      else
        none
  | .closeSend => s.client.closeSend.map (fun client => { s with client, closed := true })
  | .response =>
      (answer s.call).bind (fun answer =>
        (s.client.response digest answer).map (fun client => { s with client }))
  | .recv =>
      match s.queue, s.closed with
      | message :: queue, _ => (s.call.recv anyPut message).map (fun call => { s with queue, call })
      | [], true => (s.call.recvEnd none).map (fun call => { s with call })
      | [], false => none
  | .call label => (s.call.step label).map (fun call => { s with call })

/-- The steps without a cancelled context or a failed response, over a store that returns once
its reader has ended, with nil if and only if it read the size in the digest.
-/
def reliable (digest : Digest) (s : Session) : Session.Label → Prop
  | .call (.contextDone _) => False
  | .call (.reply err) => err = none
  | .call (.putReturn err) =>
      match s.call.store with
      | .running consumed (some told) =>
          err = none ↔ told = .eof ∧ (consumed.length : Int) = digest.sizeBytes
      | _ => False
  | _ => True

/-- An upload of what a reader returns in `reads` and, together with its end, in `last`. -/
def machine (uuid : UUID) (digest : Digest) (reads : List Bytes) (last : Bytes)
    : Machine Session Session.Label where
  initial s := s = { client := { reads, last, lastErr := .eof } }
  step := Session.step (resourceNameWrite uuid digest) digest

def fits (digest : Digest) (data : Bytes) : Prop :=
  (data.length : Int) = digest.sizeBytes

/-- The states of a `Write` that has taken the bytes `taken` from its messages, before and
after the message that finishes the upload.
-/
inductive Serving (digest : Digest) : Bytes → Bool → WriteCall → Prop
  | fresh : Serving digest [] false { store := .idle }
  | receiving {taken totalWritten} (counted : totalWritten = taken.length)
    : Serving digest taken false
        { resource := some (digest, false)
          totalWritten
          handler := .recv
          store := .running taken none }
  | writing {taken consumed sent rest totalWritten} (whole : taken = consumed ++ rest)
    (counted : totalWritten + sent.length = consumed.length)
    : Serving digest taken false
        { resource := some (digest, false)
          totalWritten
          pipe := { write := some ⟨sent, rest⟩ }
          handler := .writing false
          store := .running consumed none }
  | closing {taken}
    : Serving digest taken true
        { resource := some (digest, false)
          totalWritten := taken.length
          handler := .closing
          store := .running taken none }
  | draining {taken told} (ended : ∀ err, told = some err → err = .eof)
    : Serving digest taken true
        { resource := some (digest, false)
          totalWritten := taken.length
          pipe := { werr := some .eof }
          handler := .waiting
          store := .running taken told }
  | stored {taken err} (judged : err = none ↔ fits digest taken)
    : Serving digest taken true
        { resource := some (digest, false)
          totalWritten := taken.length
          pipe := { werr := some .eof }
          handler := .waiting
          store := .returned taken err }
  | replying {taken} (judged : fits digest taken)
    : Serving digest taken true
        { resource := some (digest, false)
          totalWritten := taken.length
          pipe := { werr := some .eof }
          handler := .replying
          store := .returned taken none }
  | deferred {taken err cause} (judged : err = none ↔ fits digest taken)
    : Serving digest taken true
        { resource := some (digest, false)
          totalWritten := taken.length
          pipe := { werr := some .eof }
          handler := .deferred err
          store := .returned taken cause }
  | returned {taken err cause} (judged : err = none ↔ fits digest taken)
    : Serving digest taken true
        { resource := some (digest, false)
          totalWritten := taken.length
          pipe := { rerr := some .closedPipe, werr := some .eof }
          handler := .returned err
          store := .returned taken cause }

namespace Serving

variable {digest : Digest} {taken : Bytes} {finished : Bool} {call call' : WriteCall}

theorem reads (serving : Serving digest taken finished call) {consumed chunk : Bytes}
    {count : Nat} {pipe : Pipe UInt8 GoError} (at_ : call.store = .running consumed none)
    (read : call.pipe.read count = some (chunk, pipe))
    : Serving digest taken finished
        { call with pipe, store := .running (consumed ++ chunk) none } := by
  cases serving with
  | @writing _ _ sent rest totalWritten whole counted =>
      obtain ⟨rfl, -⟩ := StorePut.running.inj at_
      simp only [Pipe.read, Pipe.isClosed, Option.isSome_none, Bool.or_self,
        Bool.false_or] at read
      split at read
      next => cases read
      next =>
        obtain ⟨rfl, rfl⟩ := Prod.mk.inj (Option.some.inj read)
        refine .writing ?_ ?_
        · rw [whole, List.append_assoc, List.take_append_drop]
        · rw [List.length_append, List.length_append, ← counted, Nat.add_assoc]
  | fresh => cases at_
  | stored => cases at_
  | replying => cases at_
  | deferred => cases at_
  | returned => cases at_
  | _ => cases read

theorem step (serving : Serving digest taken finished call) {label : WriteCall.Label}
    {s : Session} (same : s.call = call) (allowed : reliable digest s (.call label))
    (effect : WriteCall.Effect call label call')
    : Serving digest taken finished call' := by
  cases effect with
  | wrote at_ busy all =>
      cases serving with
      | @writing _ consumed sent rest totalWritten whole counted =>
          obtain rfl : rest = [] := all
          obtain rfl := Handler.writing.inj at_
          obtain rfl : taken = consumed := by rw [whole, List.append_nil]
          exact .receiving counted
      | _ => cases at_
  | writeFails at_ shut =>
      cases serving with
      | writing => cases shut
      | _ => cases at_
  | closes at_ =>
      cases serving with
      | closing => exact .draining nofun
      | _ => cases at_
  | succeeds at_ done =>
      cases serving with
      | stored judged =>
          obtain ⟨rfl, rfl⟩ := StorePut.returned.inj done
          exact .replying (judged.mp rfl)
      | draining => cases done
      | _ => cases at_
  | putFails at_ done =>
      cases serving with
      | stored judged =>
          obtain ⟨rfl, rfl⟩ := StorePut.returned.inj done
          exact .deferred ⟨nofun, fun fits => nomatch judged.mpr fits⟩
      | draining => cases done
      | _ => cases at_
  | cancelled => exact allowed.elim
  | replies at_ =>
      obtain rfl := allowed
      cases serving with
      | replying judged => exact .deferred ⟨fun _ => judged, fun _ => rfl⟩
      | _ => cases at_
  | returns at_ =>
      cases serving with
      | deferred judged =>
          obtain rfl := Handler.deferred.inj at_
          exact .returned judged
      | _ => cases at_
  | reads at_ read => exact serving.reads at_ read
  | sees at_ shut =>
      cases serving with
      | draining =>
          obtain ⟨rfl, -⟩ := StorePut.running.inj at_
          obtain rfl := Option.some.inj shut
          exact .draining (fun err same => (Option.some.inj same).symm)
      | receiving => cases shut
      | writing => cases shut
      | closing => cases shut
      | _ => cases at_
  | @putReturns consumed told err at_ =>
      have judged : ∃ end_, told = some end_
          ∧ (err = none ↔ end_ = .eof ∧ fits digest consumed) := by
        simp only [reliable, same, at_] at allowed
        cases told with
        | none => exact allowed.elim
        | some end_ => exact ⟨end_, rfl, allowed⟩
      obtain ⟨end_, rfl, judged⟩ := judged
      cases serving with
      | draining ended =>
          obtain ⟨rfl, rfl⟩ := StorePut.running.inj at_
          obtain rfl := ended end_ rfl
          exact .stored (judged.trans (and_iff_right rfl))
      | _ => cases at_

variable {message : WriteRequest}

theorem takeData {totalWritten : Nat} (counted : totalWritten = taken.length)
    (last : message.finishWrite = true → message.data = []) (next
      : Call.takeData
          { resource := some (digest, false)
            totalWritten
            handler := .recv
            store := .running taken none } message = some call')
    : call'.resource = some (digest, false)
      ∧ Serving digest (taken ++ message.data) message.finishWrite call' := by
  rcases Call.takeData_spec next with ⟨empty, rfl⟩ | ⟨something, rfl⟩
  · refine ⟨rfl, ?_⟩
    rw [empty, List.append_nil]
    cases message.finishWrite with
    | false => exact .receiving counted
    | true =>
        subst counted
        exact .closing
  · refine ⟨rfl, ?_⟩
    have more : message.finishWrite = false := by
      rw [Bool.eq_false_iff]
      exact fun finishes => something (last finishes)
    rw [more]
    exact .writing rfl counted

theorem recv (serving : Serving digest taken finished call)
    (last : message.finishWrite = true → message.data = []) (named
      : call.resource = none
          → parseResourceName message.resourceName true = .ok (digest, false)
            ∧ message.resourceName ≠ "" ∧ message.writeOffset = 0)
    (next : call.recv anyPut message = some call')
    : finished = false
      ∧ call'.resource = some (digest, false)
      ∧ Serving digest (taken ++ message.data) message.finishWrite call' := by
  cases serving with
  | fresh =>
      obtain ⟨parsed, nonempty, offset⟩ := named rfl
      simp only [Call.recv, Call.takeFirst, anyPut, nonempty, offset, parsed, if_false,
        Int.lt_irrefl] at next
      exact ⟨rfl, takeData rfl last next⟩
  | receiving counted => exact ⟨rfl, takeData counted last next⟩
  | _ => cases next

theorem recv_isSome (serving : Serving digest taken finished call) (message : WriteRequest)
    (at_ : call.handler = .recv)
    : (call.recv anyPut message).isSome = true := by
  refine Call.recv_isSome at_ ?_ message (fun _ => rfl)
  cases serving with
  | fresh => rfl
  | receiving => rfl
  | _ => cases at_

/-- A handler that has returned has finished the upload and given the store its bytes. It has
answered with their number if they fit, and with an error otherwise.
-/
theorem answered (serving : Serving digest taken finished call)
    {reply : Except GoError Int} (answered : answer call = some reply)
    : finished = true
      ∧ call.resource = some (digest, false)
      ∧ (∃ err, call.store = .returned taken err)
      ∧ ((fits digest taken ∧ reply = .ok (int64 taken.length))
        ∨ (¬ fits digest taken ∧ ∃ err, reply = .error err)) := by
  cases serving with
  | @returned _ err cause judged =>
      refine ⟨rfl, rfl, ⟨cause, rfl⟩, ?_⟩
      cases err with
      | none => exact Or.inl ⟨judged.mp rfl, (Option.some.inj answered).symm⟩
      | some err =>
          have misfits : ¬ fits digest taken := fun fits => absurd (judged.mpr fits) nofun
          exact Or.inr ⟨misfits, err, (Option.some.inj answered).symm⟩
  | _ => cases answered

theorem ended (serving : Serving digest taken finished call) {label : WriteCall.Label}
    (answered : (answer call).isSome = true) (effect : WriteCall.Effect call label call')
    : False := by
  cases serving with
  | returned =>
      cases effect with
      | reads at_ => cases at_
      | sees at_ => cases at_
      | putReturns at_ => cases at_
      | _ => contradiction
  | _ => cases answered

theorem resource_eq (serving : Serving digest taken finished call)
    {resource : Digest × Bool} (found : call.resource = some resource)
    : resource = (digest, false) := by
  cases serving with
  | fresh => cases found
  | _ => exact (Option.some.inj found).symm

theorem not_receiving (serving : Serving digest taken true call) : call.handler ≠ .recv := by
  cases serving <;> exact nofun

end Serving

/-- The states of a `Put` whose reader ends with `io.EOF` and whose `Send`s succeed, with the
bytes that it has still to send, before and after the message that finishes the upload.
-/
inductive Sending (name : String) : Bytes → Bool → RemoteStore.Put → Prop
  | reading {reads last offset}
    : Sending name (reads.flatten ++ last) false
        { reads, last, lastErr := .eof, offset, place := .read }
  | sending {reads last offset data} (something : data ≠ [])
    : Sending name (data ++ (reads.flatten ++ last)) false
        { reads, last, lastErr := .eof, offset
          place := .send (Put.dataMessage name offset data) none }
  | sendingLast {reads last offset data} (something : data ≠ [])
    : Sending name data false
        { reads, last, lastErr := .eof, offset
          place := .send (Put.dataMessage name offset data) (some .eof) }
  | finishing {reads last offset}
    : Sending name [] false { reads, last, lastErr := .eof, offset, place := .finish }
  | closing {reads last offset}
    : Sending name [] true
        { reads, last, lastErr := .eof, offset, place := .closeAndRecv none }
  | awaiting {reads last offset}
    : Sending name [] true { reads, last, lastErr := .eof, offset, place := .awaiting none }
  | returned {reads last offset err}
    : Sending name [] true { reads, last, lastErr := .eof, offset, place := .returned err }

namespace Sending

variable {name : String} {left : Bytes} {finished : Bool} {p p' : RemoteStore.Put}

/-- A `Read` moves no bytes to the stream; one without bytes and without an error is read
over, and the last one may have bytes.
-/
theorem read (sending : Sending name left finished p) (taken : p.read name = some p')
    : finished = false ∧ p'.offset = p.offset ∧ Sending name left false p' := by
  cases sending with
  | @reading reads last offset =>
      cases reads with
      | nil =>
          obtain rfl := Option.some.inj taken
          refine ⟨rfl, rfl, ?_⟩
          cases last with
          | nil => exact .finishing
          | cons byte rest => exact .sendingLast (List.cons_ne_nil byte rest)
      | cons data reads =>
          obtain rfl := Option.some.inj taken
          refine ⟨rfl, rfl, ?_⟩
          cases data with
          | nil =>
              rw [List.flatten_cons, List.nil_append]
              exact .reading
          | cons byte rest =>
              rw [List.flatten_cons, List.append_assoc]
              exact .sending (List.cons_ne_nil byte rest)
  | _ => cases taken

/-- A `Send` takes its bytes from the front. The message that finishes the upload has none,
and a message at offset 0 has the resource name.
-/
theorem send (sending : Sending name left finished p) {message : WriteRequest}
    (sent : p.send name = some (message, p'))
    : finished = false
      ∧ (message.finishWrite = true → message.data = [])
      ∧ (p.offset = 0 → message.resourceName = name ∧ message.writeOffset = 0)
      ∧ (∀ err, p'.place ≠ .returned err)
      ∧ ∃ left', left = message.data ++ left'
        ∧ Sending name left' message.finishWrite p' := by
  cases sending with
  | sending something =>
      obtain ⟨rfl, rfl⟩ := Prod.mk.inj (Option.some.inj sent)
      exact ⟨rfl, nofun, fun zero => Put.dataMessage_first zero _ _, fun _ => nofun, _, rfl,
        .reading⟩
  | sendingLast something =>
      obtain ⟨rfl, rfl⟩ := Prod.mk.inj (Option.some.inj sent)
      exact ⟨rfl, nofun, fun zero => Put.dataMessage_first zero _ _, fun _ => nofun, [],
        (List.append_nil _).symm, .finishing⟩
  | finishing =>
      obtain ⟨rfl, rfl⟩ := Prod.mk.inj (Option.some.inj sent)
      exact ⟨rfl, fun _ => rfl, fun zero => ⟨if_pos zero, zero⟩, fun _ => nofun, [], rfl,
        .closing⟩
  | _ => cases sent

theorem sendFails (sending : Sending name left finished p) {err : GoError}
    (failed : p.sendFails err = some p')
    : finished = false := by
  cases sending with
  | sending => rfl
  | sendingLast => rfl
  | finishing => rfl
  | _ => cases failed

theorem closeSend (sending : Sending name left finished p) (closed : p.closeSend = some p')
    : finished = true
      ∧ p'.offset = p.offset
      ∧ (∀ err, p'.place ≠ .returned err)
      ∧ Sending name left true p' := by
  cases sending with
  | closing =>
      obtain rfl := Option.some.inj closed
      exact ⟨rfl, rfl, fun _ => nofun, .awaiting⟩
  | _ => cases closed

theorem response (sending : Sending name left finished p) {digest : Digest}
    {reply : Except GoError Int} (responded : p.response digest reply = some p')
    : finished = true
      ∧ Sending name left true p'
      ∧ p'.place = .returned (Put.respond digest none reply) := by
  cases sending with
  | awaiting =>
      obtain rfl := Option.some.inj responded
      exact ⟨rfl, .returned, rfl⟩
  | _ => cases responded

theorem not_returned (sending : Sending name left false p) (err : Option IoError)
    : p.place ≠ .returned err := by
  cases sending <;> exact nofun

theorem nothing_left (sending : Sending name left true p) : left = [] := by
  cases sending <;> rfl

end Sending

/-- The messages under way. Only the last one may finish the upload, and it has no data. -/
def Ordered (finishing : Bool) : List WriteRequest → Prop
  | [] => finishing = false
  | message :: rest =>
      if message.finishWrite then
        message.data = [] ∧ rest = [] ∧ finishing = true
      else
        Ordered finishing rest

/-- One more message follows those that do not finish the upload, by induction over them. -/
theorem Ordered.snoc {queue : List WriteRequest} {message : WriteRequest}
    (ordered : Ordered false queue) (last : message.finishWrite = true → message.data = [])
    : Ordered message.finishWrite (queue ++ [message]) := by
  induction queue with
  | nil =>
      cases finish : message.finishWrite with
      | false => simp [Ordered, finish]
      | true => simp [Ordered, finish, last finish]
  | cons head rest ih =>
      unfold Ordered at ordered
      split at ordered
      next => cases ordered.2.2
      next more =>
        rw [List.cons_append, Ordered, if_neg more]
        exact ih ordered

def carried (queue : List WriteRequest) : Bytes :=
  queue.flatMap WriteRequest.data

def FirstNamed (name : String) (offset : Int) : List WriteRequest → Prop
  | [] => offset = 0
  | message :: _ => message.resourceName = name ∧ message.writeOffset = 0

/-- The session while it goes well: the bytes that the server has taken, those under way and
those that the client has still to send are the data; and either side has finished the upload
after the other has got all of it.
-/
structure Agrees (name : String) (digest : Digest) (data taken left : Bytes)
    (received finishing : Bool) (s : Session)
    : Prop where
  serving : Serving digest taken received s.call
  sending : Sending name left (received || finishing) s.client
  ordered : Ordered finishing s.queue
  empty : received = true → s.queue = []
  whole : taken ++ carried s.queue ++ left = data
  first : s.call.resource = none → FirstNamed name s.client.offset s.queue
  closed : s.closed = true → (received || finishing) = true
  answered
    : ∀ err, s.client.place = .returned err
        → (answer s.call).isSome = true ∧ (err = none ↔ fits digest data)

def Sound (name : String) (digest : Digest) (data : Bytes) (s : Session) : Prop :=
  ∃ taken left received finishing, Agrees name digest data taken left received finishing s

section Steps

variable {name : String} {digest : Digest} {data taken left : Bytes}
  {received finishing : Bool} {s s' : Session}

theorem Agrees.complete (agrees : Agrees name digest data taken left received finishing s)
    (done : received = true)
    : taken = data := by
  have whole := agrees.whole
  have sending := agrees.sending
  rw [done, Bool.true_or] at sending
  simpa [agrees.empty done, carried, sending.nothing_left] using whole

theorem Agrees.read (agrees : Agrees name digest data taken left received finishing s)
    {client : RemoteStore.Put} (read : s.client.read name = some client)
    : Agrees name digest data taken left received finishing { s with client } := by
  obtain ⟨unfinished, offset, sending⟩ := agrees.sending.read read
  refine ⟨agrees.serving, unfinished ▸ sending, agrees.ordered, agrees.empty, agrees.whole, ?_,
    agrees.closed, fun err returned => absurd returned (sending.not_returned err)⟩
  exact fun unnamed => offset ▸ agrees.first unnamed

variable {message : WriteRequest}

theorem Agrees.send (agrees : Agrees name digest data taken left received finishing s)
    {client : RemoteStore.Put} (sent : s.client.send name = some (message, client))
    : ∃ left', Agrees name digest data taken left' false message.finishWrite
        { s with queue := s.queue ++ [message], client } := by
  obtain ⟨unfinished, last, named, running, left', rfl, sending⟩ := agrees.sending.send sent
  obtain ⟨rfl, rfl⟩ := Bool.or_eq_false_iff.mp unfinished
  refine ⟨left', agrees.serving, by rwa [Bool.false_or], agrees.ordered.snoc last, nofun, ?_, ?_,
    ?_, ?_⟩
  · have whole := agrees.whole
    simpa [carried, List.append_assoc] using whole
  · intro unnamed
    have first := agrees.first unnamed
    revert first
    cases s.queue with
    | nil => exact named
    | cons head rest => exact id
  · intro closed
    cases agrees.closed closed
  · exact fun err returned => absurd returned (running err)

theorem Agrees.recv (agrees : Agrees name digest data taken left received finishing s)
    (parsed : parseResourceName name true = .ok (digest, false)) (nonempty : name ≠ "")
    {queue : List WriteRequest} {call : WriteCall} (ahead : s.queue = message :: queue)
    (next : s.call.recv anyPut message = some call)
    : Sound name digest data { s with queue, call } := by
  have ordered := agrees.ordered
  rw [ahead, Ordered] at ordered
  have last : message.finishWrite = true → message.data = [] := by
    intro finishes
    rw [if_pos finishes] at ordered
    exact ordered.1
  have named : s.call.resource = none
      → parseResourceName message.resourceName true = .ok (digest, false)
        ∧ message.resourceName ≠ "" ∧ message.writeOffset = 0 := by
    intro unnamed
    have first := agrees.first unnamed
    rw [ahead] at first
    rw [first.1]
    exact ⟨parsed, nonempty, first.2⟩
  obtain ⟨rfl, resource, serving⟩ := agrees.serving.recv last named next
  have whole : taken ++ message.data ++ carried queue ++ left = data := by
    have whole := agrees.whole
    rw [ahead] at whole
    simpa [carried, List.append_assoc] using whole
  have unanswered (err : Option IoError) : s.client.place ≠ .returned err := by
    intro returned
    obtain ⟨reply, answered⟩ := Option.isSome_iff_exists.mp (agrees.answered err returned).1
    cases (agrees.serving.answered answered).1
  have unnamed : call.resource ≠ none := by simp [resource]
  cases finish : message.finishWrite with
  | true =>
      rw [if_pos finish] at ordered
      obtain ⟨-, rfl, rfl⟩ := ordered
      refine ⟨taken ++ message.data, left, true, false, finish ▸ serving, agrees.sending, rfl,
        fun _ => rfl, whole, fun none => absurd none unnamed, agrees.closed,
        fun err returned => absurd returned (unanswered err)⟩
  | false =>
      rw [if_neg (by rw [finish]; decide)] at ordered
      refine ⟨taken ++ message.data, left, false, finishing, finish ▸ serving, agrees.sending,
        ordered, nofun, whole, fun none => absurd none unnamed, agrees.closed,
        fun err returned => absurd returned (unanswered err)⟩

theorem respond_nil_iff (named : Named digest) {reply : Except GoError Int}
    (answered
      : (fits digest data ∧ reply = .ok (int64 data.length))
        ∨ (¬ fits digest data ∧ ∃ err, reply = .error err))
    : Put.respond digest none reply = none ↔ fits digest data := by
  rcases answered with ⟨fit, rfl⟩ | ⟨misfit, err, rfl⟩
  · have size : int64 data.length = digest.sizeBytes := by
      rw [show (data.length : Int) = digest.sizeBytes from fit]
      apply Int.bmod_eq_of_le_mul_two
      · have nonneg := named.nonneg
        omega
      · have small := named.small
        omega
    simp [Put.respond, isCommitSuccessful, size, fit]
  · simp [Put.respond, misfit]

theorem Sound.step (sound : Sound name digest data s) (named : Named digest)
    (parsed : parseResourceName name true = .ok (digest, false)) (nonempty : name ≠ "")
    {label : Session.Label} (allowed : reliable digest s label)
    (taken : s.step name digest label = some s')
    : Sound name digest data s' := by
  obtain ⟨bytes, left, received, finishing, agrees⟩ := sound
  cases label with
  | read =>
      obtain ⟨client, read, rfl⟩ := Option.map_eq_some_iff.mp taken
      exact ⟨bytes, left, received, finishing, agrees.read read⟩
  | send =>
      obtain ⟨⟨message, client⟩, sent, rfl⟩ := Option.map_eq_some_iff.mp taken
      obtain ⟨left', agrees⟩ := agrees.send sent
      exact ⟨bytes, left', false, message.finishWrite, agrees⟩
  | sendFails err =>
      simp only [Session.step] at taken
      split at taken
      next answered =>
        -- The server has answered the last message, so the client has nothing to send.
        obtain ⟨client, failed, rfl⟩ := Option.map_eq_some_iff.mp taken
        obtain ⟨reply, answered⟩ := Option.isSome_iff_exists.mp answered
        obtain ⟨rfl, -⟩ := agrees.serving.answered answered
        cases agrees.sending.sendFails failed
      next => cases taken
  | closeSend =>
      obtain ⟨client, closed, rfl⟩ := Option.map_eq_some_iff.mp taken
      obtain ⟨finished, offset, running, sending⟩ := agrees.sending.closeSend closed
      refine ⟨bytes, left, received, finishing, agrees.serving, finished ▸ sending,
        agrees.ordered, agrees.empty, agrees.whole, ?_, fun _ => finished,
        fun err returned => absurd returned (running err)⟩
      exact fun unnamed => offset ▸ agrees.first unnamed
  | response =>
      obtain ⟨reply, answered, later⟩ := Option.bind_eq_some_iff.mp taken
      obtain ⟨client, responded, rfl⟩ := Option.map_eq_some_iff.mp later
      obtain ⟨rfl, resource, -, judged⟩ := agrees.serving.answered answered
      obtain ⟨-, sending, place⟩ := agrees.sending.response responded
      rw [agrees.complete rfl] at judged
      refine ⟨bytes, left, true, finishing, agrees.serving, sending, agrees.ordered,
        agrees.empty, agrees.whole, fun none => ?_, fun _ => rfl, fun err returned => ?_⟩
      · cases resource.symm.trans none
      · obtain rfl := PutPlace.returned.inj (place.symm.trans returned)
        exact ⟨Option.isSome_iff_exists.mpr ⟨reply, answered⟩, respond_nil_iff named judged⟩
  | recv =>
      simp only [Session.step] at taken
      split at taken
      next message queue ahead =>
        obtain ⟨call, next, rfl⟩ := Option.map_eq_some_iff.mp taken
        exact agrees.recv parsed nonempty ahead next
      next empty closed =>
        -- The client has closed its side after its last message, which was received.
        obtain ⟨call, ended, rfl⟩ := Option.map_eq_some_iff.mp taken
        have ordered := agrees.ordered
        rw [empty] at ordered
        obtain rfl : finishing = false := ordered
        obtain rfl : received = true := by simpa using agrees.closed closed
        obtain ⟨at_, -⟩ := Call.recvEnd_cases ended
        exact absurd at_ agrees.serving.not_receiving
      next => cases taken
  | call label =>
      obtain ⟨call, next, rfl⟩ := Option.map_eq_some_iff.mp taken
      have effect := WriteCall.step_effect next
      refine ⟨bytes, left, received, finishing, agrees.serving.step rfl allowed effect,
        agrees.sending, agrees.ordered, agrees.empty, agrees.whole, ?_, agrees.closed, ?_⟩
      · rw [effect.resource]
        exact agrees.first
      · intro err returned
        exact (agrees.serving.ended (agrees.answered err returned).1 effect).elim

def clientAhead (p : RemoteStore.Put) : Nat :=
  let unread := (p.reads.flatten ++ p.last).length + 5 * (p.reads.length + 1) + 10
  match p.place with
  | .read => unread
  | .send message none => message.data.length + 4 + unread
  | .send message (some _) => message.data.length + 14
  | .finish => 9
  | .closeAndRecv _ => 5
  | .awaiting _ => 4
  | .returned _ => 0

def queueAhead (queue : List WriteRequest) : Nat :=
  (queue.map (fun message => message.data.length + 3)).sum

def callAhead (call : WriteCall) : Nat :=
  match call.handler, call.store with
  | .recv, _ => 8
  | .writing _, _ => call.pipe.rest.length + 10
  | .closing, _ => 7
  | .waiting, .running _ none => 6
  | .waiting, .running _ (some _) => 5
  | .waiting, _ => 4
  | .replying, _ => 3
  | .deferred _, _ => 2
  | .returned _, _ => 0

def ahead (s : Session) : Nat :=
  clientAhead s.client + queueAhead s.queue + callAhead s.call

def Advances (name : String) (digest : Digest) (s : Session) : Prop :=
  ∃ label s', reliable digest s label ∧ s.step name digest label = some s'
    ∧ ahead s' < ahead s

theorem Advances.of_call (name : String) (label : WriteCall.Label) (before after : Nat)
    {call : WriteCall} (allowed : reliable digest s (.call label))
    (next : s.call.step label = some call) (now : callAhead s.call = before)
    (later : callAhead call = after) (lower : after < before)
    : Advances name digest s := by
  refine ⟨.call label, { s with call }, allowed, by simp [Session.step, next], ?_⟩
  simp only [ahead, now, later]
  omega

variable {client : RemoteStore.Put} {queue : List WriteRequest} {closed : Bool}
  {call : WriteCall}

theorem callAhead_recv {next : WriteCall} (taken : call.recv anyPut message = some next)
    : callAhead next ≤ message.data.length + 10 := by
  have takes {call : WriteCall} (taken : call.takeData message = some next)
      : callAhead next ≤ message.data.length + 10 := by
    rcases Call.takeData_spec taken with ⟨-, rfl⟩ | ⟨-, rfl⟩
    · cases message.finishWrite <;> simp [callAhead, Call.resume]
    · simp [callAhead, Pipe.rest]
  obtain ⟨-, ⟨-, err, rfl⟩ | ⟨resource, -, -, first⟩ | ⟨resource, -, more⟩⟩ :=
    Call.recv_cases taken
  · simp [callAhead]
  · exact takes first
  · exact takes more

theorem Serving.advances_open (serving : Serving digest taken false call)
    : Advances name digest ⟨client, message :: queue, closed, call⟩ := by
  by_cases receiving : call.handler = .recv
  · obtain ⟨next, taken⟩ := Option.isSome_iff_exists.mp (serving.recv_isSome message receiving)
    refine ⟨.recv, ⟨client, queue, closed, next⟩, trivial, by simp [Session.step, taken], ?_⟩
    have now : callAhead call = 8 := by simp only [callAhead, receiving]
    have later := callAhead_recv taken
    simp only [ahead, now, queueAhead, List.map_cons, List.sum_cons]
    omega
  · cases serving with
    | fresh => exact absurd rfl receiving
    | receiving => exact absurd rfl receiving
    | @writing _ consumed sent rest totalWritten whole counted =>
        cases rest with
        | nil => exact .of_call name .written 10 8 trivial rfl rfl rfl (by decide)
        | cons byte rest =>
            exact .of_call name (.read 1) (rest.length + 11) (rest.length + 10) trivial rfl rfl
              rfl (Nat.lt_succ_self _)

theorem Serving.advances_closing (serving : Serving digest taken true call)
    : Advances name digest ⟨client, queue, closed, call⟩ ∨ (answer call).isSome = true := by
  cases serving with
  | closing => exact Or.inl (.of_call name .closeWriter 7 6 trivial rfl rfl rfl (by decide))
  | @draining _ told ended =>
      left
      cases told with
      | none => exact .of_call name .readEnd 6 5 trivial rfl rfl rfl (by decide)
      | some end_ =>
          obtain rfl := ended end_ rfl
          by_cases fit : fits digest taken
          · exact .of_call name (.putReturn none) 5 4 ⟨fun _ => ⟨rfl, fit⟩, fun _ => rfl⟩ rfl rfl rfl
              (by decide)
          · exact .of_call name (.putReturn (some .eof)) 5 4
              ⟨nofun, fun both => absurd both.2 fit⟩ rfl rfl rfl (by decide)
  | @stored _ err judged =>
      left
      cases err with
      | none => exact .of_call name .receive 4 3 trivial rfl rfl rfl (by decide)
      | some err => exact .of_call name .receive 4 2 trivial rfl rfl rfl (by decide)
  | replying => exact Or.inl (.of_call name (.reply none) 3 2 rfl rfl rfl rfl (by decide))
  | deferred => exact Or.inl (.of_call name .close 2 0 trivial rfl rfl rfl (by decide))
  | @returned _ err =>
      right
      cases err <;> rfl

theorem Sending.advances (sending : Sending name left false client)
    : Advances name digest ⟨client, queue, closed, call⟩ := by
  cases sending with
  | @reading reads last offset =>
      cases reads with
      | nil =>
          refine ⟨.read, _, trivial, rfl, ?_⟩
          cases last with
          | nil => simp [ahead, clientAhead, Put.handle, Put.afterRead]
          | cons byte rest => simp [ahead, clientAhead, Put.handle, Put.dataMessage]
      | cons data reads =>
          refine ⟨.read, _, trivial, rfl, ?_⟩
          cases data with
          | nil => simp [ahead, clientAhead, Put.handle, Put.afterRead]
          | cons byte rest =>
              simp only [ahead, clientAhead, Put.handle, Put.dataMessage, List.isEmpty_cons,
                Bool.false_eq_true, if_false, List.flatten_cons, List.length_append,
                List.length_cons]
              omega
  | sending something =>
      refine ⟨.send, _, trivial, rfl, ?_⟩
      simp only [ahead, clientAhead, queueAhead, Put.afterRead, List.map_append, List.map_cons,
        List.map_nil, List.sum_append, List.sum_cons, List.sum_nil]
      omega
  | sendingLast something =>
      refine ⟨.send, _, trivial, rfl, ?_⟩
      simp only [ahead, clientAhead, queueAhead, Put.afterRead, List.map_append, List.map_cons,
        List.map_nil, List.sum_append, List.sum_cons, List.sum_nil]
      omega
  | finishing =>
      refine ⟨.send, _, trivial, rfl, ?_⟩
      simp only [ahead, clientAhead, queueAhead, Put.finishMessage, List.map_append,
        List.map_cons, List.map_nil, List.sum_append, List.sum_cons, List.sum_nil,
        List.length_nil]
      omega

theorem Sound.advances (sound : Sound name digest data s)
    (running : ¬ ∃ err, s.client.place = .returned err)
    : Advances name digest s := by
  obtain ⟨bytes, left, received, finishing, agrees⟩ := sound
  obtain ⟨client, queue, closed, call⟩ := s
  have sending := agrees.sending
  cases finished : (received || finishing) with
  | false =>
      rw [finished] at sending
      exact sending.advances
  | true =>
      rw [finished] at sending
      -- The client waits for the answer, which the server has ready or works towards.
      cases sending with
      | closing =>
          refine ⟨.closeSend, _, trivial, rfl, ?_⟩
          simp [ahead, clientAhead]
      | returned => exact absurd ⟨_, rfl⟩ running
      | awaiting =>
          have serving := agrees.serving
          cases received with
          | true =>
              rcases serving.advances_closing with advances | answered
              · exact advances
              · obtain ⟨reply, answered⟩ := Option.isSome_iff_exists.mp answered
                refine ⟨.response, _, trivial, by simp only [Session.step, answered]; rfl, ?_⟩
                simp [ahead, clientAhead]
          | false =>
              obtain rfl : finishing = true := finished
              cases queue with
              | nil => cases agrees.ordered
              | cons message queue => exact serving.advances_open

end Steps

theorem resourceNameWrite_ne_empty (uuid : UUID) (digest : Digest)
    : resourceNameWrite uuid digest ≠ "" := by
  intro empty
  have length := congrArg String.length empty
  simp [resourceNameWrite] at length

theorem sound_inductive (uuid : UUID) {digest : Digest} (named : Named digest)
    (reads : List Bytes) (last : Bytes)
    : (machine uuid digest reads last).Inductive (reliable digest)
        (Sound (resourceNameWrite uuid digest) digest (reads.flatten ++ last)) where
  start s initial := by
    obtain rfl : s = { client := { reads, last, lastErr := .eof } } := initial
    exact ⟨[], reads.flatten ++ last, false, false, .fresh, .reading, rfl, nofun, rfl,
      fun _ => rfl, nofun, nofun⟩
  keeps s label s' sound allowed taken :=
    sound.step named (parseResourceName_resourceNameWrite uuid named)
      (resourceNameWrite_ne_empty uuid digest) allowed taken

/-- Whatever the digest, the data and the way in which the reader returns it, and in every
order of the steps of both sides: the server's store is called for no digest but the client's;
when `Put` has returned, the store has been given that digest and exactly the data, and `Put`
returned nil if and only if the data has the size in the digest; and from every state the
session can go on until `Put` returns.
-/
theorem upload_agrees {uuid : UUID} {digest : Digest} {reads : List Bytes} {last : Bytes}
    {s : Session} (named : Named digest)
    (reach : (machine uuid digest reads last).Reachable (reliable digest) s)
    : (∀ resource, s.call.resource = some resource → resource = (digest, false))
      ∧ (∀ err, s.client.place = .returned err
        → s.call.resource = some (digest, false)
          ∧ (∃ cause, s.call.store = .returned (reads.flatten ++ last) cause)
          ∧ (err = none ↔ ((reads.flatten ++ last).length : Int) = digest.sizeBytes))
      ∧ ∃ labels s', (machine uuid digest reads last).Run (reliable digest) s labels s'
          ∧ ∃ err, s'.client.place = .returned err := by
  have inductive_ := sound_inductive uuid named reads last
  have sound := inductive_.reachable reach
  refine ⟨?_, ?_, ?_⟩
  · intro resource named
    obtain ⟨taken, left, received, finishing, agrees⟩ := sound
    exact agrees.serving.resource_eq named
  · intro err returned
    obtain ⟨taken, left, received, finishing, agrees⟩ := sound
    obtain ⟨answered, judged⟩ := agrees.answered err returned
    obtain ⟨reply, answered⟩ := Option.isSome_iff_exists.mp answered
    obtain ⟨rfl, resource, stored, -⟩ := agrees.serving.answered answered
    rw [agrees.complete rfl] at stored
    exact ⟨resource, stored, judged⟩
  · exact Machine.exists_run_to ahead inductive_.keeps
      (fun s sound running => sound.advances running) sound

/-- An upload of three bytes, with a read of none between the first two and the last one
together with the end.
-/
theorem three_bytes_uploaded
    : ∃ s err, (machine ⟨"00000000-0000-0000-0000-000000000000", by decide, by decide⟩
          ⟨"ab12", 3⟩ [[1], [], [2]] [3]).Reachable (reliable ⟨"ab12", 3⟩) s
        ∧ s.client.place = .returned err
        ∧ err = none
        ∧ s.call.resource = some (⟨"ab12", 3⟩, false)
        ∧ ∃ cause, s.call.store = .returned [1, 2, 3] cause := by
  have named : Named ⟨"ab12", 3⟩ := ⟨by decide, by decide, by decide, by decide⟩
  have start : (machine ⟨"00000000-0000-0000-0000-000000000000", by decide, by decide⟩
      ⟨"ab12", 3⟩ [[1], [], [2]] [3]).Reachable (reliable ⟨"ab12", 3⟩) _ :=
    .start rfl
  obtain ⟨labels, s, run, err, returned⟩ := (upload_agrees named start).2.2
  obtain ⟨resource, stored, judged⟩ := (upload_agrees named (start.after run)).2.1 err returned
  exact ⟨s, err, start.after run, returned, judged.mpr rfl, resource, stored⟩

end GoREgo.UploadProtocol
