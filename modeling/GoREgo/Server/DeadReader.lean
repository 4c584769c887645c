import GoREgo.Server.AnyStore

/-! When the handler of `Write` can be left writing to a pipe that no one reads: exactly when
the store's `Put` returns before the whole payload was delivered to it.
-/

namespace GoREgo.Server

open Lib

namespace Receiver

/-- Whether the handler is inside `pw.Write` with bytes that were not taken, after the
goroutine has returned.
-/
def deadReader (s : Receiver) : Bool :=
  match s.call.handler, s.call.store with
  | .writing _, .returned _ _ => !s.call.pipe.rest.isEmpty
  | _, _ => false

def ahead (s : Receiver) : Bytes :=
  match s.call.handler with
  | .recv => payload s.inbox
  | .writing false => payload s.inbox
  | _ => []

/-- The bytes of the payload that were not delivered to the goroutine: those that wait in the
pipe and those that the loop will still write to it.
-/
def undelivered (s : Receiver) : Bytes :=
  s.call.pipe.rest ++ s.ahead

/-- A step by which `Put` returns is taken when the whole payload has been delivered. -/
def settles (s : Receiver) : Label → Prop
  | .call (.putReturn _) => s.undelivered = []
  | _ => True

instance (s : Receiver) (label : Label) : Decidable (s.settles label) := by
  unfold settles
  split <;> infer_instance

/-- The pipe has a write in progress exactly while the handler is inside `pw.Write`, and the
goroutine runs once the first message was accepted.
-/
structure Shaped (s : Receiver) : Prop where
  idle : (∀ finish, s.call.handler ≠ .writing finish) → s.call.pipe.write = none
  busy : ∀ finish, s.call.handler = .writing finish → s.call.pipe.write.isSome = true
  fresh : s.call.resource = none → s.call.store = .idle

variable {s s' : Receiver}

theorem Shaped.rest_idle (shaped : s.Shaped)
    (away : ∀ finish, s.call.handler ≠ .writing finish)
    : s.call.pipe.rest = [] :=
  Pipe.rest_idle (shaped.idle away)

theorem resume_ne_writing (finish other : Bool) : Call.resume finish ≠ .writing other := by
  cases finish <;> exact nofun

theorem Shaped.takeData {call call' : WriteCall} {message : WriteRequest}
    {inbox : List WriteRequest} (taken : call.takeData message = some call')
    (idle : call.pipe.write = none) (named : call.resource ≠ none)
    : ({ inbox, call := call' } : Receiver).Shaped
      ∧ ({ inbox, call := call' } : Receiver).undelivered = payload (message :: inbox) := by
  rcases Call.takeData_spec taken with ⟨empty, rfl⟩ | ⟨-, rfl⟩
  · refine ⟨⟨fun _ => idle, ?_, fun unnamed => absurd unnamed named⟩, ?_⟩
    · intro finish at_
      exact absurd at_ (resume_ne_writing _ _)
    · rw [undelivered, payload, empty, Pipe.rest_idle idle]
      cases message.finishWrite <;> rfl
  · refine ⟨⟨fun away => absurd rfl (away _), fun _ _ => rfl,
      fun unnamed => absurd unnamed named⟩, ?_⟩
    rw [undelivered, payload]
    cases message.finishWrite <;> rfl

theorem Shaped.leave (shaped : s.Shaped) (pipe : Pipe UInt8 GoError) (handler : Handler)
    (inbox : List WriteRequest) (idle : pipe.write = none)
    (away : ∀ finish, handler ≠ .writing finish) (out : handler ≠ .recv)
    : ({ inbox, call := { s.call with pipe, handler } } : Receiver).Shaped
      ∧ ({ inbox, call := { s.call with pipe, handler } } : Receiver).undelivered = [] := by
  refine ⟨⟨fun _ => idle, fun finish at_ => absurd at_ (away finish), shaped.fresh⟩, ?_⟩
  rw [undelivered, Pipe.rest_idle idle, List.nil_append]
  cases handler with
  | recv => exact absurd rfl out
  | writing finish => exact absurd rfl (away finish)
  | _ => rfl

/-- What a step keeps: the shape, that everything was delivered, and, unless it is the return
of `Put`, whether `Put` has returned.
-/
structure Keeps (s : Receiver) (label : Label) (s' : Receiver) : Prop where
  shaped : s'.Shaped
  delivered : s.undelivered = [] → s'.undelivered = []
  returned
    : ∀ consumed err, s'.call.store = .returned consumed err
        → s.call.store = .returned consumed err
          ∨ ∃ result, label = .call (.putReturn result)

theorem Shaped.recv {failure : Option GoError} (shaped : s.Shaped)
    (taken : s.step failure .recv = some s')
    : s.Keeps .recv s' := by
  have before (at_ : s.call.handler = .recv)
      : s.call.pipe.write = none ∧ s.undelivered = payload s.inbox := by
    have away : ∀ finish, s.call.handler ≠ .writing finish := by simp [at_]
    refine ⟨shaped.idle away, ?_⟩
    simp only [undelivered, ahead, at_, shaped.rest_idle away, List.nil_append]
  simp only [step] at taken
  split at taken
  next empty =>
    obtain ⟨call, ended, rfl⟩ := Option.map_eq_some_iff.mp taken
    obtain ⟨at_, ⟨-, rfl⟩ | ⟨err, -, rfl⟩⟩ := Call.recvEnd_cases ended
    · obtain ⟨shaped', none⟩ := shaped.leave s.call.pipe .closing s.inbox (before at_).1
        nofun nofun
      exact ⟨shaped', fun _ => none, fun _ _ same => Or.inl same⟩
    · obtain ⟨shaped', none⟩ := shaped.leave s.call.pipe (.deferred (some err)) s.inbox
        (before at_).1 nofun nofun
      exact ⟨shaped', fun _ => none, fun _ _ same => Or.inl same⟩
  next message inbox next =>
    obtain ⟨call, received, rfl⟩ := Option.map_eq_some_iff.mp taken
    obtain ⟨at_, ⟨-, err, rfl⟩ | ⟨resource, -, -, begun⟩ | ⟨resource, named, more⟩⟩ :=
      Call.recv_cases received
    · obtain ⟨shaped', none⟩ := shaped.leave s.call.pipe (.deferred (some err)) inbox
        (before at_).1 nofun nofun
      exact ⟨shaped', fun _ => none, fun _ _ same => Or.inl same⟩
    · obtain ⟨idle, same⟩ := before at_
      obtain ⟨shaped', after⟩ := Shaped.takeData begun idle (Option.some_ne_none _)
      refine ⟨shaped', fun none => after.trans (next ▸ same ▸ none), ?_⟩
      intro consumed err returned
      rcases Call.takeData_spec begun with ⟨-, rfl⟩ | ⟨-, rfl⟩ <;> cases returned
    · obtain ⟨idle, same⟩ := before at_
      obtain ⟨shaped', after⟩ := Shaped.takeData more idle (by simp [named])
      refine ⟨shaped', fun none => after.trans (next ▸ same ▸ none), ?_⟩
      intro consumed err returned
      rcases Call.takeData_spec more with ⟨-, rfl⟩ | ⟨-, rfl⟩ <;> exact Or.inl returned

theorem Shaped.call {label : WriteCall.Label} {call : WriteCall} (shaped : s.Shaped)
    (effect : WriteCall.Effect s.call label call)
    : s.Keeps (.call label) { s with call } := by
  -- The steps after the loop only move the handler on, with a pipe that has no write.
  have leaves (pipe : Pipe UInt8 GoError) (handler : Handler) (idle : pipe.write = none)
      (away : ∀ finish, handler ≠ .writing finish) (out : handler ≠ .recv)
      : s.Keeps (.call label)
          { inbox := s.inbox, call := { s.call with pipe, handler } } := by
    obtain ⟨shaped', none⟩ := shaped.leave pipe handler s.inbox idle away out
    exact ⟨shaped', fun _ => none, fun _ _ same => Or.inl same⟩
  cases effect with
  | @wrote finish at_ busy all =>
      refine ⟨⟨fun _ => rfl, fun other at_ => absurd at_ (resume_ne_writing _ _),
        shaped.fresh⟩, ?_, fun _ _ same => Or.inl same⟩
      intro none
      cases finish with
      | true => rfl
      | false =>
          have later := (List.append_eq_nil_iff.mp none).2
          simp only [ahead, at_] at later
          exact later
  | writeFails at_ shut => exact leaves _ (.deferred (some _)) rfl nofun nofun
  | closes at_ =>
      refine leaves _ _ (shaped.idle (by simp [at_])) ?_ ?_
      · intro finish
        split <;> exact nofun
      · split <;> exact nofun
  | succeeds at_ done => exact leaves _ .replying (shaped.idle (by simp [at_])) nofun nofun
  | putFails at_ done =>
      exact leaves _ (.deferred (some _)) (shaped.idle (by simp [at_])) nofun nofun
  | cancelled at_ =>
      exact leaves _ (.deferred (some _)) (shaped.idle (by simp [at_])) nofun nofun
  | replies at_ => exact leaves _ (.deferred _) (shaped.idle (by simp [at_])) nofun nofun
  | returns at_ => exact leaves _ (.returned _) (shaped.idle (by simp [at_])) nofun nofun
  | @reads consumed count chunk pipe at_ taken =>
      obtain ⟨-, busy, waiting, -⟩ := Pipe.read_spec taken
      refine ⟨⟨?_, fun _ _ => (Pipe.read_busy taken).1, ?_⟩, ?_, nofun⟩
      · intro away
        rw [shaped.idle away] at busy
        cases busy
      · intro unnamed
        cases (shaped.fresh unnamed).symm.trans at_
      · intro none
        obtain ⟨waits, later⟩ := List.append_eq_nil_iff.mp none
        rw [waiting] at waits
        exact List.append_eq_nil_iff.mpr ⟨(List.append_eq_nil_iff.mp waits).2, later⟩
  | sees at_ shut =>
      refine ⟨⟨shaped.idle, shaped.busy, ?_⟩, fun none => none, nofun⟩
      intro unnamed
      cases (shaped.fresh unnamed).symm.trans at_
  | putReturns at_ =>
      refine ⟨⟨shaped.idle, shaped.busy, ?_⟩, fun none => none, fun _ _ _ => Or.inr ⟨_, rfl⟩⟩
      intro unnamed
      cases (shaped.fresh unnamed).symm.trans at_

theorem Shaped.step {failure : Option GoError} {label : Label} (shaped : s.Shaped)
    (taken : s.step failure label = some s')
    : s.Keeps label s' := by
  cases label with
  | recv => exact shaped.recv taken
  | call label =>
      obtain ⟨call, stepped, rfl⟩ := Option.map_eq_some_iff.mp taken
      exact shaped.call (WriteCall.step_effect stepped)

end Receiver

theorem shaped_new (messages : List WriteRequest)
    : ({ inbox := messages } : Receiver).Shaped :=
  ⟨fun _ => rfl, nofun, fun _ => rfl⟩

theorem delivered_invariant (stream : Stream)
    : (receiveMachine stream).Inductive Receiver.settles (fun s =>
        s.Shaped
        ∧ ∀ consumed err, s.call.store = .returned consumed err → s.undelivered = []) where
  start s initial := by
    obtain rfl : s = { inbox := stream.messages } := initial
    exact ⟨shaped_new _, nofun⟩
  keeps s label s' holds settles taken := by
    obtain ⟨shaped, delivered⟩ := holds
    have keeps := shaped.step taken
    refine ⟨keeps.shaped, ?_⟩
    intro consumed err returned
    rcases keeps.returned consumed err returned with before | ⟨result, rfl⟩
    · exact keeps.delivered (delivered consumed err before)
    · exact keeps.delivered settles

theorem Receiver.deadReader_undelivered {s : Receiver} (dead : s.deadReader = true)
    : (∃ consumed err, s.call.store = .returned consumed err) ∧ s.undelivered ≠ [] := by
  unfold deadReader at dead
  split at dead
  next finish consumed err at_ returned =>
    refine ⟨⟨consumed, err, returned⟩, ?_⟩
    intro none
    rw [(List.append_eq_nil_iff.mp none).1] at dead
    cases dead
  next => cases dead

/-- A handler at `Recv` whose later messages carry data writes it to a goroutine that has
returned. Witness: the messages up to the first one with data, by induction over the inbox.
-/
theorem dead_of_recv (stream : Stream) {call : WriteCall} {inbox : List WriteRequest}
    {resource : Digest × Bool} {consumed : Bytes} {err : Option IoError}
    (at_ : call.handler = .recv) (named : call.resource = some resource)
    (idle : call.pipe.write = none) (returned : call.store = .returned consumed err)
    (more : payload inbox ≠ [])
    : ∃ labels s, (receiveMachine stream).Run Machine.anyStep { inbox, call } labels s
        ∧ s.deadReader = true := by
  induction inbox with
  | nil => exact absurd rfl more
  | cons message inbox ih =>
      have received
          : (receiveMachine stream).step { inbox := message :: inbox, call } .recv
            = (call.takeData message).map (fun call => { inbox, call }) := by
        simp only [receiveMachine, Receiver.step, Call.recv, at_, named]
      by_cases empty : message.data = []
      · have unfinished : message.finishWrite = false := by
          by_contra finish
          simp [payload, empty, Bool.of_not_eq_false finish] at more
        have same : call.takeData message = some call := by
          simp [Call.takeData, empty, unfinished, Call.resume, ← at_]
        rw [same] at received
        have later : payload inbox ≠ [] := by
          simpa [payload, empty, unfinished] using more
        obtain ⟨labels, s, run, dead⟩ := ih later
        exact ⟨_, s, .cons trivial received run, dead⟩
      · have begun : call.takeData message
            = some { call with
                pipe := { call.pipe with write := some ⟨[], message.data⟩ }
                handler := .writing message.finishWrite } := by
          simp [Call.takeData, empty, Pipe.beginWrite, idle]
        rw [begun] at received
        refine ⟨_, _, .cons trivial received (.nil _), ?_⟩
        simp [Receiver.deadReader, returned, Pipe.rest, empty]

theorem Receiver.Shaped.dead_of_undelivered (stream : Stream) {s : Receiver} {consumed : Bytes}
    {err : Option IoError} (shaped : s.Shaped)
    (returned : s.call.store = .returned consumed err) (more : s.undelivered ≠ [])
    : ∃ labels s', (receiveMachine stream).Run Machine.anyStep s labels s'
        ∧ s'.deadReader = true := by
  obtain ⟨resource, named⟩ : ∃ resource, s.call.resource = some resource := by
    refine Option.ne_none_iff_exists'.mp ?_
    intro unnamed
    cases (shaped.fresh unnamed).symm.trans returned
  cases at_ : s.call.handler with
  | recv =>
      have idle := shaped.idle (by simp [at_])
      refine dead_of_recv stream at_ named idle returned ?_
      simpa [undelivered, ahead, at_, Pipe.rest_idle idle] using more
  | writing finish =>
      by_cases taken : s.call.pipe.rest = []
      · -- The write in progress is over, so the data is in a later message.
        have later : s.ahead ≠ [] := by simpa [undelivered, taken] using more
        obtain rfl : finish = false := by
          by_contra finish
          simp [ahead, at_, Bool.of_not_eq_false finish] at later
        have ends := Pipe.endWrite_all (shaped.busy false at_) taken
        let call : WriteCall :=
          { s.call with
            pipe := { s.call.pipe with write := none }
            totalWritten := s.call.totalWritten + s.call.pipe.sent.length
            handler := .recv }
        have stepped : (receiveMachine stream).step s (.call .written) = some { s with call } := by
          simp [receiveMachine, Receiver.step, WriteCall.step, at_, Call.written, ends,
            Call.resume, call]
        obtain ⟨labels, s', run, dead⟩ := dead_of_recv stream (rfl : call.handler = .recv)
          named rfl returned (by simpa only [ahead, at_] using later)
        exact ⟨_, s', .cons trivial stepped run, dead⟩
      · refine ⟨[], s, .nil s, ?_⟩
        simp [deadReader, at_, returned, taken]
  | _ =>
      have idle := shaped.idle (by simp [at_])
      simp [undelivered, ahead, at_, Pipe.rest_idle idle] at more

/-- If every `Put` returns only when the whole payload was delivered to it, the handler never
writes to a goroutine that has returned. The condition is exact: a `Put` that returns earlier
leads to a handler that does.
-/
theorem write_blocks_only_on_early_return {stream : Stream} {s : Receiver}
    (reach : (receiveMachine stream).Reachable Receiver.settles s)
    : s.deadReader = false
      ∧ ∀ label s', (receiveMachine stream).step s label = some s'
          → ¬ s.settles label
          → ∃ labels s'', (receiveMachine stream).Run Machine.anyStep s' labels s''
              ∧ s''.deadReader = true := by
  obtain ⟨shaped, delivered⟩ := (delivered_invariant stream).reachable reach
  refine ⟨?_, ?_⟩
  · rw [Bool.eq_false_iff]
    intro dead
    obtain ⟨⟨consumed, err, returned⟩, more⟩ := Receiver.deadReader_undelivered dead
    exact more (delivered consumed err returned)
  · intro label s' taken early
    have keeps := shaped.step taken
    cases label with
    | recv => exact absurd trivial early
    | call label =>
        obtain ⟨call, stepped, rfl⟩ := Option.map_eq_some_iff.mp taken
        cases WriteCall.step_effect stepped with
        | putReturns at_ => exact keeps.shaped.dead_of_undelivered stream rfl early
        | _ => exact absurd trivial early

def oneByte : Stream where
  messages := [⟨"uploads/u/blobs/abcd/1", 0, [7], true⟩]
  failure := none

/-- The goroutine reads the byte and the end of the payload before its `Put` returns. -/
theorem read_to_end_not_blocked
    : ∃ s, (receiveMachine oneByte).Reachable Receiver.settles s
        ∧ s.call.store = .returned [7] none
        ∧ s.deadReader = false := by
  let labels : List Receiver.Label :=
    [.recv, .call (.read 1), .call .written, .call .closeWriter, .call .readEnd,
      .call (.putReturn none)]
  obtain ⟨s, run, tested⟩ := Machine.exists_run_of_execIf (receiveMachine oneByte)
    Receiver.settles { inbox := oneByte.messages } labels
    (fun s => s.call.store = .returned [7] none) (by decide)
  have reach : (receiveMachine oneByte).Reachable Receiver.settles s := ⟨_, labels, rfl, run⟩
  exact ⟨s, reach, of_decide_eq_true tested, (write_blocks_only_on_early_return reach).1⟩

/-- A `Put` that fails at once leaves the handler inside `pw.Write` with its one byte. -/
theorem early_return_blocks_write
    : ¬ ∀ stream s, (receiveMachine stream).Reachable Machine.anyStep s
        → s.deadReader = false := by
  intro never
  let labels : List Receiver.Label :=
    [.recv, .call (.putReturn (some (.other (.plain "unavailable"))))]
  obtain ⟨s, run, dead⟩ := Machine.exists_run_of_exec (receiveMachine oneByte)
    { inbox := oneByte.messages } labels Receiver.deadReader (by decide)
  exact absurd dead (Bool.eq_false_iff.mp (never oneByte s ⟨_, labels, rfl, run⟩))

end GoREgo.Server
