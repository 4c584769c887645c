import GoREgo.Storage.UploadFlow

/-! A `Put` through `ProxyStore` whose remote `Put` returns nil before it has read all of its
reader, as it does when the remote store turns out to have the blob.
-/

namespace GoREgo

open Lib LocalStore

namespace LocalStore

def Put.failed : Put → Bool
  | .deferred _ err => err.isSome
  | .returned _ err => err.isSome
  | _ => false

theorem Put.disk_ok_failed {digest : Digest} {files files' : Files} {put put' : Put}
    (taken : put.disk digest files .ok = some (files', put'))
    : put'.failed = put.failed := by
  cases put with
  | copy written => cases taken
  | returned temp err => cases taken
  | _ =>
      obtain ⟨-, rfl⟩ := Prod.mk.inj (Option.some.inj taken)
      rfl

end LocalStore

namespace Proxy

namespace Upload

/-- Events over a disk that works, a source that reports nothing but its end, and a remote
`Put` that reads `count` bytes and then returns nil.
-/
def stopsAt (count : Nat) (u : Upload) : Event → Prop
  | .source (.error err) => err = .eof
  | .disk outcome => outcome = .ok
  | .remoteRead size => (u.received ++ u.pipe.rest.take size).length ≤ count
  | .remoteReturn err => err = none ∧ u.received.length = count
  | _ => True

/-- What holds while the remote `Put` reads no more than `count` bytes: the writer's end is
open until the local `Put` has returned, and that fails only when `count` is too small.
-/
structure Stops (count : Nat) (data : Bytes) (u : Upload) : Prop where
  bounded : u.received.length ≤ count
  returned : ∀ err, u.remote = some err → err = none ∧ u.received.length = count
  writer : u.pipe.werr.isSome = true → ∃ temp err, u.localPut = .returned temp err
  failed : u.localPut.failed = true → u.remote.isSome = true ∧ count < data.length

theorem stops_new (count : Nat) (data : Bytes) : ({} : Upload).Stops count data where
  bounded := Nat.zero_le _
  returned := nofun
  writer := nofun
  failed := nofun

namespace Stops

variable {count : Nat} {digest : Digest} {data rest rest' : Bytes} {tiers tiers' : Tiers}
  {u u' : Upload} {event : Event}

/-- While the local `Put` copies, only the remote `Put` can have closed the pipe. -/
theorem closed_by_remote (stops : u.Stops count data) (flow : u.Flow digest data rest)
    {written : Bytes} (copying : u.localPut = .copy written) (shut : u.pipe.isClosed = true)
    : u.remote = some none ∧ u.received.length = count := by
  have open_ : u.pipe.werr.isSome = false := by
    rw [Bool.eq_false_iff]
    intro closed
    obtain ⟨temp, err, returned⟩ := stops.writer closed
    cases copying.symm.trans returned
  rw [Pipe.isClosed, open_, Bool.or_false, flow.reader, Option.isSome_map] at shut
  obtain ⟨err, returned⟩ := Option.isSome_iff_exists.mp shut
  obtain ⟨rfl, same⟩ := stops.returned err returned
  exact ⟨returned, same⟩

/-- Every event keeps the bounds. The tee is cut off only when the remote `Put` has returned
with bytes left, and the source ends with the digest's number of bytes.
-/
theorem effect (stops : u.Stops count data) (flow : u.Flow digest data rest)
    (sized : (data.length : Int) = digest.sizeBytes)
    (left : Flight.remaining rest event = some rest')
    (effect : Effect digest tiers u event tiers' u') (allowed : u.stopsAt count event)
    : u'.Stops count data := by
  cases effect with
  | reads => exact ⟨stops.bounded, stops.returned, stops.writer, stops.failed⟩
  | @sourceEnds written err next copying idle ends =>
      obtain ⟨-, atEnd⟩ := Read.after_error left
      obtain rfl : err = .eof := allowed
      obtain ⟨taken, spread⟩ := flow.copied copying
      rw [Pipe.sent_idle idle, List.append_nil] at taken
      rw [Pipe.rest_idle idle, atEnd rfl, List.append_nil, List.append_nil, taken] at spread
      obtain ⟨_, same, ⟨-, -, rfl⟩ | ⟨differs, -⟩⟩ := Put.endCopy_spec ends
      · refine ⟨stops.bounded, stops.returned, ?_, nofun⟩
        intro closed
        obtain ⟨temp, err, returned⟩ := stops.writer closed
        cases copying.symm.trans returned
      · obtain rfl := Put.copy.inj same
        exact absurd (spread ▸ sized) (differs rfl)
  | copies copying =>
      refine ⟨stops.bounded, stops.returned, ?_, nofun⟩
      intro closed
      obtain ⟨temp, err, returned⟩ := stops.writer closed
      cases copying.symm.trans returned
  | teeFails copying busy shut waiting ends =>
      obtain ⟨returned, same⟩ := stops.closed_by_remote flow copying shut
      refine ⟨stops.bounded, stops.returned, ?_, fun _ => ⟨by rw [returned]; rfl, ?_⟩⟩
      · intro closed
        obtain ⟨temp, err, returned⟩ := stops.writer closed
        cases copying.symm.trans returned
      · obtain ⟨-, spread⟩ := flow.copied copying
        have more := List.length_pos_iff.mpr waiting
        rw [spread, List.length_append, List.length_append]
        omega
  | @writes outcome files next idle taken =>
      obtain rfl : outcome = .ok := allowed
      refine ⟨stops.bounded, stops.returned, ?_, ?_⟩
      · intro closed
        obtain ⟨temp, err, returned⟩ := stops.writer closed
        rw [returned] at taken
        cases taken
      · rw [Put.disk_ok_failed taken]
        exact stops.failed
  | closes returned => exact ⟨stops.bounded, stops.returned, fun _ => ⟨_, _, returned⟩, stops.failed⟩
  | @remoteReads size chunk pipe running taken =>
      obtain ⟨-, -, -, -, -, werr⟩ := Pipe.read_spec taken
      rw [stopsAt, ← Pipe.read_take taken] at allowed
      refine ⟨allowed, ?_, fun closed => stops.writer (werr ▸ closed), stops.failed⟩
      intro err returned
      cases running.symm.trans returned
  | remoteSees => exact ⟨stops.bounded, stops.returned, stops.writer, stops.failed⟩
  | commits => exact stops
  | @remoteReturns err running =>
      obtain ⟨rfl, same⟩ := allowed
      refine ⟨stops.bounded, ?_, stops.writer, fun failed => ⟨rfl, (stops.failed failed).2⟩⟩
      intro err returned
      exact ⟨(Option.some.inj returned).symm, same⟩

end Stops

def phase : Put → Nat
  | .mkdirAll => 7
  | .createTemp => 6
  | .copy _ => 5
  | .close _ => 4
  | .rename _ => 3
  | .chmod => 2
  | .deferred _ _ => 1
  | .returned _ _ => 0

def rank (rest : Bytes) (u : Upload) : Nat :=
  3 * rest.length + u.pipe.rest.length + u.pipe.write.isSome.toNat + phase u.localPut
    + (!u.closed).toNat + u.remote.isNone.toNat

variable {digest : Digest} {u : Upload} {rest : Bytes}

theorem phase_disk {files files' : Files} {outcome : Outcome} {put put' : Put}
    (taken : put.disk digest files outcome = some (files', put'))
    : phase put' < phase put := by
  cases put <;> cases outcome
  case copy.ok => cases taken
  case returned.ok => cases taken
  case returned.fail => cases taken
  all_goals
    obtain ⟨-, rfl⟩ := Prod.mk.inj (Option.some.inj taken)
    simp [phase]

theorem phase_endCopy {written : Bytes} {err : IoError} {next : Put}
    (ends : (Put.copy written).endCopy digest err = some next)
    : phase next < 5 := by
  obtain ⟨_, -, ⟨-, -, rfl⟩ | ⟨-, failure, rfl⟩⟩ := Put.endCopy_spec ends
  · simp [phase]
  · simp [phase]

/-- Every event lowers the rank, except that the remote `Put` may be told the end of its
reader, and may commit, any number of times.
-/
theorem Effect.rank_lt {tiers tiers' : Tiers} {u' : Upload} {event : Event} {rest' : Bytes}
    (effect : Effect digest tiers u event tiers' u')
    (left : Flight.remaining rest event = some rest') (moves : event ≠ .remoteEnd)
    (brings : event ≠ .commit)
    : u'.rank rest' < u.rank rest := by
  have unread (other : ∀ read, event ≠ .source read) : rest' = rest := by
    cases event with
    | source read => exact absurd rfl (other read)
    | _ => exact (Option.some.inj left).symm
  cases effect with
  | @reads written bytes copying idle something =>
      have size := List.length_pos_iff.mpr something
      rw [Read.after_data left]
      simp only [rank, idle, Pipe.rest, List.length_append, Option.isSome_none,
        Option.isSome_some, Bool.toNat_false, Bool.toNat_true, List.length_nil]
      omega
  | @sourceEnds written err next copying idle ends =>
      obtain ⟨rfl, -⟩ := Read.after_error left
      have later := phase_endCopy ends
      have before : phase u.localPut = 5 := by rw [copying]; rfl
      simp only [rank]
      omega
  | @copies written copying busy all =>
      obtain rfl := unread (by simp)
      simp only [rank, busy, copying, phase, Pipe.rest, Option.isSome_none,
        Bool.toNat_false, Bool.toNat_true, List.length_nil]
      omega
  | @teeFails written next copying busy shut waiting ends =>
      obtain rfl := unread (by simp)
      have later := phase_endCopy ends
      have before : phase u.localPut = 5 := by rw [copying]; rfl
      simp only [rank, Pipe.rest, Option.isSome_none, Bool.toNat_false, List.length_nil]
      omega
  | @writes outcome files next idle taken =>
      obtain rfl := unread (by simp)
      have later := phase_disk taken
      simp only [rank]
      omega
  | closes returned first =>
      obtain rfl := unread (by simp)
      simp [rank, first, Pipe.closeWrite, Pipe.rest]
  | @remoteReads count chunk pipe running taken =>
      obtain rfl := unread (by simp)
      obtain ⟨-, busy, waiting, -⟩ := Pipe.read_spec taken
      obtain ⟨busy', something⟩ := Pipe.read_busy taken
      have size := List.length_pos_iff.mpr something
      simp only [rank, busy, busy', waiting, List.length_append]
      omega
  | remoteSees => exact absurd rfl moves
  | commits => exact absurd rfl brings
  | remoteReturns running =>
      obtain rfl := unread (by simp)
      simp [rank, running, Pipe.closeRead, Pipe.rest]

def Event.plain : Event → Bool
  | .source (.data _) => true
  | .source (.error .eof) => true
  | .teeReturn => true
  | .disk .ok => true
  | .closeWriter => true
  | _ => false

/-- The local side of an upload has an event that is no failure, or it waits for the remote
`Put` to take bytes from an open pipe, or it is done.
-/
theorem Flow.local_advances {data : Bytes} (flow : u.Flow digest data rest) (tiers : Tiers)
    : (∃ event, event.plain = true
        ∧ (Flight.remaining rest event).isSome = true
        ∧ (u.step digest tiers event).isSome = true)
      ∨ ((∃ written, u.localPut = .copy written)
        ∧ u.pipe.rest ≠ [] ∧ u.pipe.isClosed = false)
      ∨ ((∃ temp err, u.localPut = .returned temp err) ∧ u.closed = true) := by
  cases at_ : u.localPut with
  | copy written =>
      cases write : u.pipe.write with
      | none =>
          left
          cases rest with
          | nil =>
              have takes := source_isSome digest at_ write (.error .eof) (by simp)
              exact ⟨.source (.error .eof), rfl, rfl, by simpa [step] using takes⟩
          | cons byte rest =>
              have takes := source_isSome digest at_ write (.data (byte :: rest)) (by simp)
              exact ⟨.source (.data (byte :: rest)), rfl,
                by simp [Flight.remaining, Read.after], by simpa [step] using takes⟩
      | some handoff =>
          have busy : u.pipe.write.isSome = true := by rw [write]; rfl
          by_cases ready : u.pipe.rest = [] ∨ u.pipe.isClosed = true
          · have returns := teeReturn_isSome digest at_ busy ready
            exact Or.inl ⟨.teeReturn, rfl, rfl, by simpa [step] using returns⟩
          · rw [not_or, Bool.not_eq_true] at ready
            exact Or.inr (Or.inl ⟨⟨written, rfl⟩, ready⟩)
  | returned temp err =>
      cases closed : u.closed with
      | true => exact Or.inr (Or.inr ⟨⟨temp, err, rfl⟩, rfl⟩)
      | false => exact Or.inl ⟨.closeWriter, rfl, rfl, by simp [step, at_, closed]⟩
  | _ =>
      have idle : u.pipe.write = none := flow.idle (by simp [at_])
      exact Or.inl ⟨.disk .ok, rfl, rfl, by simp [step, idle, at_, Put.disk]⟩

theorem Stops.advances {count : Nat} {data : Bytes} (stops : u.Stops count data)
    (flow : u.Flow digest data rest) (tiers : Tiers) (enough : count ≤ data.length)
    : (∃ event, u.stopsAt count event
        ∧ event ≠ .remoteEnd ∧ event ≠ .commit
        ∧ (Flight.remaining rest event).isSome = true
        ∧ (u.step digest tiers event).isSome = true)
      ∨ u.result.isSome = true := by
  rcases flow.local_advances tiers with
    ⟨event, plain, left, taken⟩ | ⟨⟨written, copying⟩, waiting, notClosed⟩
      | ⟨⟨temp, err, returned⟩, closed⟩
  · left
    refine ⟨event, ?_, ?_, ?_, left, taken⟩
    · cases event with
      | source read =>
          cases read with
          | data bytes => trivial
          | error err =>
              cases err with
              | eof => rfl
              | _ => cases plain
      | disk outcome =>
          cases outcome with
          | ok => rfl
          | fail err => cases plain
      | _ => trivial
    · rintro rfl
      cases plain
    · rintro rfl
      cases plain
  · left
    have running : u.remote = none := by
      cases remote : u.remote with
      | none => rfl
      | some err => simp [Pipe.isClosed, flow.reader, remote] at notClosed
    by_cases more : u.received.length < count
    · obtain ⟨chunk, pipe, taken, -⟩ := Pipe.read_total notClosed waiting
      refine ⟨.remoteRead 1, ?_, by simp, by simp, rfl, by simp [step, running, taken]⟩
      simp only [stopsAt, List.length_append, List.length_take]
      omega
    · refine ⟨.remoteReturn none, ⟨rfl, ?_⟩, by simp, by simp, rfl, by simp [step, running]⟩
      have bounded := stops.bounded
      omega
  · cases remote : u.remote with
    | none =>
        left
        refine ⟨.remoteReturn none, ⟨rfl, ?_⟩, by simp, by simp, rfl, by simp [step, remote]⟩
        -- The local `Put` was not cut off, so it has passed all of the data on.
        have unfailed : err = none := by
          cases err with
          | none => rfl
          | some err =>
              obtain ⟨gone, -⟩ := stops.failed (by rw [returned]; rfl)
              rw [remote] at gone
              cases gone
        subst unfailed
        have bounded := stops.bounded
        rcases (flow.returned returned).whole with all | cut
        · rw [all] at bounded ⊢
          omega
        · cases remote.symm.trans cut
    | some remoteErr =>
        right
        cases err <;> simp [result, closed, returned, remote]

end Upload

section Calls

variable {Call : Type} [DecidableEq Call]

def State.startWith (world : World Call) (files : Files) : State Call :=
  { State.new world with tiers := { files, remote := world.held } }

def machineFrom (world : World Call) (files : Files) : Machine (State Call) (Label Call) where
  initial s := s = State.startWith world files
  step := step world

end Calls

def onePut (digest : Digest) (data : Bytes) (putRetryCount : Int)
    (held : Digest → Option Bytes)
    : World Unit where
  request _ := .put digest data
  putRetryCount := putRetryCount
  held := held

/-- Steps of a `Put` over a disk that works, with a reader that returns its data, and with a
remote `Put` that reads `count` bytes and then returns nil.
-/
def stopsAt (count : Nat) (s : State Unit) (label : Label Unit) : Prop :=
  match s.pcs (), label.move with
  | .flying (.put _ u), .flight (.put event) => u.stopsAt count event
  | _, .stat outcome => outcome = .ok
  | _, _ => True

/-- A `Put` with a remote `Put` that stops after `count` bytes: before the flight nothing has
happened, in the flight the bytes are accounted for, and afterwards the `Put` has succeeded
if and only if all of the data was read.
-/
def PutStops (count : Nat) (digest : Digest) (data : Bytes) (s : State Unit) : Prop :=
  s.tiers.holds digest = true
  ∧ match s.pcs () with
    | .start => s.tiers.files digest.hash = none ∧ s.group (.put digest.hash) = none
    | .entering => s.group (.put digest.hash) = none
    | .flying (.put rest u) =>
        u.Flow digest data rest
        ∧ u.Stops count data
        ∧ (u.localPut.stored = true → s.tiers.files digest.hash = some data)
    | .returned reply =>
        (count = data.length ∧ reply = .put none ∧ s.tiers.files digest.hash = some data)
        ∨ (count < data.length ∧ ∃ err, reply = .put (some err))
    | _ => False

section OnePut

variable {count : Nat} {digest : Digest} {data : Bytes} {putRetryCount : Int}
  {held : Digest → Option Bytes} {s s' : State Unit} {label : Label Unit}

theorem Upload.Stops.stored {rest : Bytes} {tiers tiers' : Tiers} {u u' : Upload}
    {event : Upload.Event} (stops : u.Stops count data) (flow : u.Flow digest data rest)
    (effect : Upload.Effect digest tiers u event tiers' u')
    (before : u.localPut.stored = true → tiers.files digest.hash = some data)
    (after : u'.localPut.stored = true)
    : tiers'.files digest.hash = some data := by
  cases effect with
  | sourceEnds copying idle ends =>
      rw [Put.endCopy_not_stored ends] at after
      cases after
  | teeFails copying busy shut waiting ends =>
      rw [Put.endCopy_not_stored ends] at after
      cases after
  | copies => cases after
  | writes idle taken =>
      rcases Put.disk_cases taken with ⟨written, moving, -, -, rfl⟩ | ⟨rfl, back, -⟩
      · obtain ⟨received, complete⟩ := flow.renamed moving
        rcases complete.whole with all | cut
        · simp [← received, all]
        · cases (stops.returned _ cut).1
      · exact before (back after)
  | _ => exact before after

theorem Upload.Stops.result {rest : Bytes} {u : Upload} {err : Option IoError}
    (stops : u.Stops count data) (flow : u.Flow digest data rest)
    (ended : u.result = some err)
    : (count = data.length ∧ err = none ∧ u.localPut.stored = true)
      ∨ (count < data.length ∧ err ≠ none) := by
  obtain ⟨temp, localErr, remoteErr, returned, finished, ⟨rfl, rfl⟩ | ⟨failure, rfl, rfl⟩⟩ :=
    Upload.result_spec ended
  · left
    obtain ⟨nil, stopped⟩ := stops.returned _ finished
    subst nil
    rcases (flow.returned returned).whole with all | cut
    · exact ⟨by rw [← stopped, all], rfl, by rw [returned]; rfl⟩
    · cases finished.symm.trans cut
  · exact Or.inr ⟨(stops.failed (by rw [returned]; rfl)).2, nofun⟩

theorem PutStops.effect (inv : PutStops count digest data s)
    (sized : (data.length : Int) = digest.sizeBytes) (allowed : stopsAt count s label)
    (effect : Effect (onePut digest data putRetryCount held) s () label.move s')
    : PutStops count digest data s' := by
  obtain ⟨holds, inv⟩ := inv
  obtain ⟨⟨⟩, move⟩ := label
  cases effect with
  | @checked outcome at_ =>
      rw [at_] at inv
      refine ⟨holds, ?_⟩
      simp only [State.setPc_self, onePut, Request.checked, inv.1, Option.isSome_none,
        Bool.false_eq_true, and_false, if_false]
      exact inv.2
  | joins at_ found =>
      rw [at_] at inv
      cases found.symm.trans inv
  | leads at_ free begins =>
      obtain rfl := Option.some.inj begins
      refine ⟨holds, ?_⟩
      simp only [State.setPc_self]
      exact ⟨Upload.flow_new digest data, Upload.stops_new count data, fun h => by cases h⟩
  | @flies flight event tiers' flight' at_ taken =>
      rw [at_] at inv
      cases Flight.step_effect taken with
      | @put rest rest' u u' event after left effect honest =>
          obtain ⟨flow, stops, stored⟩ := inv
          simp only [stopsAt, at_] at allowed
          refine ⟨effect.holds holds, ?_⟩
          simp only [State.setPc_self]
          exact ⟨flow.effect left effect, stops.effect flow sized left effect allowed,
            stops.stored flow effect stored⟩
      | putFile => exact inv.elim
      | get => exact inv.elim
  | @leaves flight err at_ ended =>
      rw [at_] at inv
      refine ⟨holds, ?_⟩
      simp only [State.setPc_self]
      obtain ⟨rest, u, rfl, result⟩ | rfl | rfl := Flight.result_spec ended
      · obtain ⟨flow, stops, stored⟩ := inv
        rcases stops.result flow result with ⟨same, rfl, done⟩ | ⟨less, failed⟩
        · exact Or.inl ⟨same, rfl, stored done⟩
        · obtain ⟨err, rfl⟩ := Option.ne_none_iff_exists'.mp failed
          exact Or.inr ⟨less, err, rfl⟩
      · exact inv.elim
      · exact inv.elim
  | wakes at_ landed =>
      rw [at_] at inv
      exact inv.elim
  | opens at_ =>
      rw [at_] at inv
      exact inv.elim
  | asks at_ =>
      rw [at_] at inv
      exact inv.elim

def putRank (data : Bytes) (s : State Unit) : Nat :=
  match s.pcs () with
  | .start => Upload.rank data {} + 3
  | .entering => Upload.rank data {} + 2
  | .flying (.put rest u) => u.rank rest + 1
  | _ => 0

def putReturned (s : State Unit) : Prop :=
  ∃ reply, s.pcs () = .returned reply

theorem PutStops.advances (inv : PutStops count digest data s) (enough : count ≤ data.length)
    (running : ¬ putReturned s)
    : ∃ label s', stopsAt count s label
        ∧ step (onePut digest data putRetryCount held) s label = some s'
        ∧ putRank data s' < putRank data s := by
  obtain ⟨holds, inv⟩ := inv
  cases at_ : s.pcs () with
  | start =>
      rw [at_] at inv
      refine ⟨⟨(), .stat .ok⟩, _, by simp [stopsAt, at_],
        by simp only [step, at_]; rfl, ?_⟩
      simp [putRank, at_, onePut, Request.checked, inv.1]
  | entering =>
      rw [at_] at inv
      refine ⟨⟨(), .enter⟩, _, by simp [stopsAt, at_],
        by simp only [step, at_, onePut, Request.key, inv, Request.flight]; rfl, ?_⟩
      simp [putRank, at_]
  | flying flight =>
      rw [at_] at inv
      cases flight with
      | put rest u =>
          obtain ⟨flow, stops, -⟩ := inv
          rcases stops.advances flow s.tiers enough with
            ⟨event, allowed, moves, brings, left, taken⟩ | ended
          · obtain ⟨rest', left⟩ := Option.isSome_iff_exists.mp left
            obtain ⟨⟨tiers', u'⟩, taken⟩ := Option.isSome_iff_exists.mp taken
            have lower := (Upload.step_effect taken).rank_lt left moves brings
            refine ⟨⟨(), .flight (.put event)⟩,
              { s.setPc () (.flying (.put rest' u')) with tiers := tiers' }, ?_, ?_, ?_⟩
            · simpa [stopsAt, at_] using allowed
            · have digest_ : (Request.put digest data).digest = digest := rfl
              simp [step, at_, onePut, Flight.step, holds, Flight.advance, left, taken, digest_]
            · simpa [putRank, at_] using lower
          · obtain ⟨err, ended⟩ := Option.isSome_iff_exists.mp ended
            refine ⟨⟨(), .leave⟩, _, by simp [stopsAt, at_],
              by simp only [step, at_, Flight.result, ended]; rfl, ?_⟩
            simp [putRank, at_, onePut, Request.landed]
      | putFile impl => exact inv.elim
      | get fetch => exact inv.elim
  | returned reply => exact absurd ⟨reply, at_⟩ running
  | _ =>
      rw [at_] at inv
      exact inv.elim

theorem putStops_inductive (count : Nat) (putRetryCount : Int) {files : Files}
    (absent : files digest.hash = none) (exists_ : (held digest).isSome = true)
    (sized : (data.length : Int) = digest.sizeBytes)
    : (machineFrom (onePut digest data putRetryCount held) files).Inductive (stopsAt count)
        (PutStops count digest data) where
  start s initial := by
    obtain rfl : s = State.startWith (onePut digest data putRetryCount held) files := initial
    exact ⟨exists_, absent, rfl⟩
  keeps s label s' inv allowed taken := inv.effect sized allowed (step_effect taken)

/-- The `Put` of a blob that the remote tier has succeeds, in every order of its steps, and
leaves the data in the local tier, if and only if the remote `Put` reads all of the data
before it returns nil. From every state it can go on to return.
-/
theorem put_of_held_blob_succeeds_iff {files : Files} (absent : files digest.hash = none)
    (exists_ : (held digest).isSome = true) (sized : (data.length : Int) = digest.sizeBytes)
    (enough : count ≤ data.length)
    : (∀ s, (machineFrom (onePut digest data putRetryCount held) files).Reachable
          (stopsAt count) s
        → (∀ reply, s.pcs () = .returned reply
            → reply = .put none ∧ s.tiers.files digest.hash = some data)
          ∧ ∃ labels s', (machineFrom (onePut digest data putRetryCount held) files).Run
              (stopsAt count) s labels s' ∧ putReturned s')
      ↔ count = data.length := by
  have inductive_ := putStops_inductive count putRetryCount absent exists_ sized
  have finishes {s : State Unit} (inv : PutStops count digest data s)
      : ∃ labels s', (machineFrom (onePut digest data putRetryCount held) files).Run
          (stopsAt count) s labels s' ∧ putReturned s' :=
    Machine.exists_run_to (putRank data) inductive_.keeps
      (fun s inv running => inv.advances enough running) inv
  constructor
  · intro succeeds
    have start := inductive_.start _ rfl
    obtain ⟨labels, s, run, reply, returned⟩ := finishes start
    have reach : (machineFrom (onePut digest data putRetryCount held) files).Reachable
        (stopsAt count) s := ⟨_, labels, rfl, run⟩
    obtain ⟨rfl, -⟩ := (succeeds s reach).1 reply returned
    have inv := (inductive_.reachable reach).2
    rw [returned] at inv
    rcases inv with ⟨same, -, -⟩ | ⟨-, err, failed⟩
    · exact same
    · cases failed
  · rintro rfl s reach
    have inv := inductive_.reachable reach
    refine ⟨?_, finishes inv⟩
    intro reply returned
    have inv := inv.2
    rw [returned] at inv
    rcases inv with ⟨-, success⟩ | ⟨less, -⟩
    · exact success
    · exact absurd less (Nat.lt_irrefl _)

end OnePut

def heldPut : World Unit :=
  onePut ⟨"abcd", 2⟩ [7, 8] 1 (fun _ => some [7, 8])

/-- A remote `Put` that reads both bytes lets the `Put` succeed. -/
theorem put_of_held_blob_read_whole
    : ∃ labels s, (machineFrom heldPut (fun _ => none)).Run (stopsAt 2)
          (State.startWith heldPut (fun _ => none)) labels s
        ∧ s.pcs () = .returned (.put none) ∧ s.tiers.files "abcd" = some [7, 8] := by
  have succeeds : ∀ s, (machineFrom heldPut (fun _ => none)).Reachable (stopsAt 2) s
      → (∀ reply, s.pcs () = .returned reply
          → reply = .put none ∧ s.tiers.files "abcd" = some [7, 8])
        ∧ ∃ labels s', (machineFrom heldPut (fun _ => none)).Run (stopsAt 2) s labels s'
            ∧ putReturned s' :=
    (put_of_held_blob_succeeds_iff rfl rfl rfl (Nat.le_refl 2)).mpr rfl
  obtain ⟨-, labels, s, run, reply, returned⟩ :=
    succeeds (State.startWith heldPut (fun _ => none)) (.start rfl)
  obtain ⟨rfl, stored⟩ := (succeeds s ⟨_, labels, rfl, run⟩).1 reply returned
  exact ⟨labels, s, run, returned, stored⟩

instance (count : Nat) (s : State Unit) (label : Label Unit)
    : Decidable (stopsAt count s label) := by
  unfold stopsAt
  split
  · unfold Upload.stopsAt
    split <;> infer_instance
  · infer_instance
  · infer_instance

/-- A remote `Put` that returns nil after the first of the two bytes fails the `Put`. -/
theorem put_of_held_blob_cut_off
    : ∃ s, (machineFrom heldPut (fun _ => none)).Reachable (stopsAt 1) s
        ∧ s.pcs ()
          = .returned (.put (some (.other (.wrap "failed to write data"
              (.plain "io: read/write on closed pipe")))))
        ∧ s.tiers.files "abcd" = none := by
  let events : List Upload.Event :=
    [.disk .ok, .disk .ok, .source (.data [7]), .remoteRead 1, .teeReturn,
      .remoteReturn none, .source (.data [8]), .teeReturn, .disk .ok, .closeWriter]
  let labels : List (Label Unit) :=
    [⟨(), .stat .ok⟩, ⟨(), .enter⟩] ++ events.map (fun event => ⟨(), .flight (.put event)⟩)
      ++ [⟨(), .leave⟩]
  obtain ⟨s, run, tested⟩ := Machine.exists_run_of_execIf
    (machineFrom heldPut (fun _ => none)) (stopsAt 1)
    (State.startWith heldPut (fun _ => none)) labels
    (fun s => s.pcs ()
        = .returned (.put (some (.other (.wrap "failed to write data"
            (.plain "io: read/write on closed pipe")))))
      ∧ s.tiers.files "abcd" = none) (by decide)
  exact ⟨s, ⟨_, labels, rfl, run⟩, of_decide_eq_true tested⟩

end Proxy

end GoREgo
