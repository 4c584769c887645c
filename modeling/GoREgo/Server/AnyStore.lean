import GoREgo.Server.ByteStream

/-! `ByteStreamServer.Write` over an arbitrary store: the handler's loop, the pipe, and a
goroutine whose `Put` reads what it likes of its reader and returns when it likes. The
reader of a compressed upload is a decoder on the pipe, which is part of what the goroutine
does with it.
-/

namespace GoREgo.Server

open Lib

/-- Where the goroutine is: not started, inside `Put` with what was read so far and the error
that ended the reader, or ended with the error in `errChan`.
-/
inductive StorePut
  | idle
  | running (consumed : Bytes) (told : Option IoError)
  | returned (consumed : Bytes) (err : Option IoError)
deriving DecidableEq, Repr

abbrev WriteCall := Call (Digest × Bool) StorePut

/-- The goroutine as the handler sees it. -/
def anyPut : Goroutine (Digest × Bool) StorePut where
  named name := some (parseResourceName name true)
  start := .running [] none
  result
    | .returned _ err => some err
    | _ => none

theorem returned_of_anyPut {store : StorePut} {err : Option IoError}
    (done : anyPut.result store = some err)
    : ∃ consumed, store = .returned consumed err := by
  cases store with
  | returned consumed err' =>
      cases done
      exact ⟨consumed, rfl⟩
  | _ => cases done

/-- The steps of the handler after a `Recv`, and those of the goroutine. -/
inductive WriteCall.Label
  | written
  | closeWriter
  | receive
  | contextDone (err : GoError)
  | reply (err : Option GoError)
  | close
  | read (count : Nat)
  | readEnd
  | putReturn (err : Option IoError)
deriving DecidableEq, Repr

namespace WriteCall

/-- One step of the handler after a `Recv`, or of the goroutine. -/
def step (s : WriteCall) (label : Label) : Option WriteCall :=
  match label, s.handler, s.store with
  | .written, .writing finish, _ => s.written finish
  | .closeWriter, .closing, _ => some s.closeWriter
  | .receive, .waiting, _ => s.receive anyPut
  | .contextDone err, .waiting, _ => some { s with handler := .deferred (some err) }
  | .reply err, .replying, _ => some { s with handler := .deferred err }
  | .close, .deferred err, _ => some (s.close err)
  | .read count, _, .running consumed none =>
      (s.pipe.read count).map (fun next =>
        { s with pipe := next.2, store := .running (consumed ++ next.1) none })
  | .readEnd, _, .running consumed none =>
      s.pipe.readEnd.map (fun err => { s with store := .running consumed (some err) })
  | .putReturn err, _, .running consumed _ => some { s with store := .returned consumed err }
  | _, _, _ => none

inductive Effect (s : WriteCall) : Label → WriteCall → Prop
  | wrote {finish} (at_ : s.handler = .writing finish) (busy : s.pipe.write.isSome = true)
    (all : s.pipe.rest = [])
    : Effect s .written
        { s with
          pipe := { s.pipe with write := none }
          totalWritten := s.totalWritten + s.pipe.sent.length
          handler := Call.resume finish }
  | writeFails {finish err} (at_ : s.handler = .writing finish)
    (shut : s.pipe.isClosed = true)
    : Effect s .written
        { s with pipe := { s.pipe with write := none }, handler := .deferred (some err) }
  | closes (at_ : s.handler = .closing) : Effect s .closeWriter s.closeWriter
  | succeeds {consumed} (at_ : s.handler = .waiting) (done : s.store = .returned consumed none)
    : Effect s .receive { s with handler := .replying }
  | putFails {consumed cause err} (at_ : s.handler = .waiting)
    (done : s.store = .returned consumed (some cause))
    : Effect s .receive { s with handler := .deferred (some err) }
  | cancelled {err} (at_ : s.handler = .waiting)
    : Effect s (.contextDone err) { s with handler := .deferred (some err) }
  | replies {err} (at_ : s.handler = .replying)
    : Effect s (.reply err) { s with handler := .deferred err }
  | returns {err} (at_ : s.handler = .deferred err) : Effect s .close (s.close err)
  | reads {consumed count chunk pipe} (at_ : s.store = .running consumed none)
    (taken : s.pipe.read count = some (chunk, pipe))
    : Effect s (.read count) { s with pipe, store := .running (consumed ++ chunk) none }
  | sees {consumed err} (at_ : s.store = .running consumed none)
    (shut : s.pipe.readEnd = some err)
    : Effect s .readEnd { s with store := .running consumed (some err) }
  | putReturns {consumed told err} (at_ : s.store = .running consumed told)
    : Effect s (.putReturn err) { s with store := .returned consumed err }

variable {s s' : WriteCall}

theorem Effect.resource {label : Label} (effect : Effect s label s')
    : s'.resource = s.resource := by
  cases effect <;> rfl

theorem receive_effect (at_ : s.handler = .waiting) (taken : s.receive anyPut = some s')
    : Effect s .receive s' := by
  obtain ⟨result, rfl⟩ | ⟨cause, err, result, rfl⟩ := Call.receive_cases taken
  · obtain ⟨consumed, done⟩ := returned_of_anyPut result
    exact .succeeds at_ done
  · obtain ⟨consumed, done⟩ := returned_of_anyPut result
    exact .putFails at_ done

theorem step_effect {label : Label} (taken : s.step label = some s') : Effect s label s' := by
  unfold step at taken
  split at taken
  next at_ =>
    obtain ⟨busy, all, rfl⟩ | ⟨shut, err, rfl⟩ := Call.written_cases taken
    · exact .wrote at_ busy all
    · exact .writeFails at_ shut
  next at_ =>
    obtain rfl := Option.some.inj taken
    exact .closes at_
  next at_ => exact receive_effect at_ taken
  next at_ =>
    obtain rfl := Option.some.inj taken
    exact .cancelled at_
  next at_ =>
    obtain rfl := Option.some.inj taken
    exact .replies at_
  next at_ =>
    obtain rfl := Option.some.inj taken
    exact .returns at_
  next at_ =>
    obtain ⟨next, read, rfl⟩ := Option.map_eq_some_iff.mp taken
    exact .reads at_ read
  next at_ =>
    obtain ⟨err, ended, rfl⟩ := Option.map_eq_some_iff.mp taken
    exact .sees at_ ended
  next at_ =>
    obtain rfl := Option.some.inj taken
    exact .putReturns at_
  next => cases taken

end WriteCall

/-- A `Write` with the messages that `Recv` has still to return. -/
structure Receiver where
  inbox : List WriteRequest
  call : WriteCall := { store := .idle }
deriving DecidableEq, Repr

inductive Receiver.Label
  | recv
  | call (label : WriteCall.Label)
deriving DecidableEq, Repr

def Receiver.step (failure : Option GoError) (s : Receiver) : Label → Option Receiver
  | .recv =>
      match s.inbox with
      | [] => (s.call.recvEnd failure).map (fun call => { s with call })
      | message :: inbox => (s.call.recv anyPut message).map (fun call => { inbox, call })
  | .call label => (s.call.step label).map (fun call => { s with call })

def receiveMachine (stream : Stream) : Machine Receiver Receiver.Label where
  initial s := s = { inbox := stream.messages }
  step := Receiver.step stream.failure

end GoREgo.Server
