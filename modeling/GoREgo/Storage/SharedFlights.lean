import GoREgo.Storage.ContentAddressing
import GoREgo.Storage.EarlyRemote

/-! Several clients upload or fetch one blob through `ProxyStore` while both tiers work. The
singleflight group makes the first call run for all that join it, with its own reader and its
own context, so a call depends on the client that leads its flight.
-/

namespace GoREgo.Proxy

open Lib LocalStore

namespace Upload

def rejects (digest : Digest) (u : Upload) : Bool :=
  match u.seen with
  | none => false
  | some told => decide (told ≠ .eof) || decide ((u.received.length : Int) ≠ digest.sizeBytes)

variable {digest : Digest} {u : Upload} {tiers : Tiers} {rest : Bytes}

theorem rejects_told {told : IoError} (seen : u.seen = some told)
    : u.rejects digest = true
      ↔ told ≠ .eof ∨ (u.received.length : Int) ≠ digest.sizeBytes := by
  simp [rejects, seen]

/-- Events over tiers that work. Only a client that quits makes its reader fail or its
context end the remote `Put` early. The remote `Put` reads to the end; it stores and accepts
what has the size in the digest, and returns an error otherwise.
-/
def works (digest : Digest) (quits : Bool) (u : Upload) : Event → Prop
  | .source (.error err) => err = .eof ∨ quits = true
  | .disk outcome => outcome = .ok
  | .commit => (u.received.length : Int) = digest.sizeBytes
  | .remoteReturn none =>
      u.seen = some .eof ∧ (u.received.length : Int) = digest.sizeBytes
  | .remoteReturn (some _) => quits = true ∨ u.rejects digest = true
  | _ => True

instance (digest : Digest) (quits : Bool) (u : Upload) (event : Event)
    : Decidable (u.works digest quits event) :=
  match event with
  | .source (.error _) | .remoteReturn (some _) => inferInstanceAs (Decidable (_ ∨ _))
  | .disk _ | .commit => inferInstanceAs (Decidable (_ = _))
  | .remoteReturn none => inferInstanceAs (Decidable (_ ∧ _))
  | .source (.data _) | .teeReturn | .closeWriter | .remoteRead _ | .remoteEnd =>
      inferInstanceAs (Decidable True)

/-- An upload for a client that supplies the bytes and does not quit: nothing has failed, and
both ends of the pipe are open until the local `Put` has returned nil.
-/
structure Serves (u : Upload) : Prop where
  fine : u.localPut.failed = false
  writer
    : ∀ err, u.pipe.werr = some err
        → err = .eof ∧ ∃ temp, u.localPut = .returned temp none
  told : ∀ err, u.seen = some err → err = .eof
  remote
    : ∀ err, u.remote = some err → err = none ∧ ∃ temp, u.localPut = .returned temp none

theorem serves_new : ({} : Upload).Serves where
  fine := rfl
  writer := nofun
  told := nofun
  remote := nofun

namespace Serves

variable {digest : Digest} {data rest rest' : Bytes} {tiers tiers' : Tiers} {u u' : Upload}
  {event : Event}

theorem moves (serves : u.Serves) (running : ∀ temp, u.localPut ≠ .returned temp none)
    (same : u'.pipe.werr = u.pipe.werr ∧ u'.seen = u.seen ∧ u'.remote = u.remote)
    (fine : u'.localPut.failed = false)
    : u'.Serves where
  fine := fine
  writer err closed := by
    obtain ⟨-, temp, returned⟩ := serves.writer err (same.1 ▸ closed)
    exact absurd returned (running temp)
  told err seen := serves.told err (same.2.1 ▸ seen)
  remote err ended := by
    obtain ⟨-, temp, returned⟩ := serves.remote err (same.2.2 ▸ ended)
    exact absurd returned (running temp)

theorem copying_open (serves : u.Serves) (flow : u.Flow digest data rest) {written : Bytes}
    (copying : u.localPut = .copy written)
    : u.pipe.isClosed = false := by
  have writer : u.pipe.werr = none := by
    cases closed : u.pipe.werr with
    | none => rfl
    | some err =>
        obtain ⟨-, temp, returned⟩ := serves.writer err closed
        cases copying.symm.trans returned
  have remote : u.remote = none := by
    cases ended : u.remote with
    | none => rfl
    | some err =>
        obtain ⟨-, temp, returned⟩ := serves.remote err ended
        cases copying.symm.trans returned
  simp [Pipe.isClosed, writer, flow.reader, remote]

/-- Every event of an upload over working tiers keeps it from failing, when the source has
the size in the digest and its client does not quit.
-/
theorem effect (serves : u.Serves) (flow : u.Flow digest data rest)
    (sized : (data.length : Int) = digest.sizeBytes)
    (left : Flight.remaining rest event = some rest')
    (effect : Effect digest tiers u event tiers' u') (allowed : u.works digest false event)
    : u'.Serves := by
  cases effect with
  | reads copying =>
      exact serves.moves (by simp [copying]) ⟨rfl, rfl, rfl⟩ serves.fine
  | @sourceEnds written err next copying idle ends =>
      obtain ⟨-, atEnd⟩ := Read.after_error left
      obtain rfl : err = .eof := allowed.resolve_right nofun
      obtain ⟨taken, spread⟩ := flow.copied copying
      rw [Pipe.sent_idle idle, List.append_nil] at taken
      rw [Pipe.rest_idle idle, atEnd rfl, List.append_nil, List.append_nil, taken] at spread
      obtain ⟨_, same, ⟨-, -, rfl⟩ | ⟨differs, -⟩⟩ := Put.endCopy_spec ends
      · exact serves.moves (by simp [copying]) ⟨rfl, rfl, rfl⟩ rfl
      · obtain rfl := Put.copy.inj same
        exact absurd (spread ▸ sized) (differs rfl)
  | copies copying => exact serves.moves (by simp [copying]) ⟨rfl, rfl, rfl⟩ rfl
  | teeFails copying busy shut =>
      cases (serves.copying_open flow copying).symm.trans shut
  | @writes outcome files next idle taken =>
      obtain rfl : outcome = .ok := allowed
      refine serves.moves ?_ ⟨rfl, rfl, rfl⟩ ((Put.disk_ok_failed taken).trans serves.fine)
      intro temp returned
      rw [returned] at taken
      cases taken
  | @closes temp err returned first =>
      obtain rfl : err = none := by
        have fine := serves.fine
        rw [returned] at fine
        simpa [Put.failed] using fine
      refine ⟨serves.fine, ?_, serves.told, serves.remote⟩
      intro err closed
      rcases Pipe.closeWrite_werr closed with before | now
      · exact serves.writer err before
      · exact ⟨now.symm, temp, returned⟩
  | remoteReads running taken =>
      obtain ⟨-, -, -, -, -, werr⟩ := Pipe.read_spec taken
      exact ⟨serves.fine, fun err closed => serves.writer err (werr ▸ closed), serves.told,
        serves.remote⟩
  | @remoteSees err running ended =>
      refine ⟨serves.fine, serves.writer, ?_, serves.remote⟩
      intro told seen
      obtain rfl := Option.some.inj seen
      have readOpen : u.pipe.rerr = none := by rw [flow.reader, running]; rfl
      exact (serves.writer err (Pipe.readEnd_werr ended readOpen)).1
  | commits => exact serves
  | @remoteReturns err running =>
      refine ⟨serves.fine, serves.writer, serves.told, ?_⟩
      intro returned same
      obtain rfl := Option.some.inj same
      cases err with
      | none => exact ⟨rfl, flow.seen allowed.1⟩
      | some err =>
          -- The reader has ended well, so all the bytes have arrived.
          have rejects : u.rejects digest = true := allowed.resolve_left nofun
          cases seen : u.seen with
          | none => simp [Upload.rejects, seen] at rejects
          | some told =>
              obtain rfl := serves.told told seen
              obtain ⟨temp, returned⟩ := flow.seen seen
              rcases (rejects_told seen).mp rejects with wrong | wrong
              · exact absurd rfl wrong
              · exact absurd (flow.returned returned).sized wrong

theorem result_nil (serves : u.Serves) {err : Option IoError} (ended : u.result = some err)
    : err = none := by
  obtain ⟨temp, localErr, remoteErr, returned, finished, ⟨rfl, rfl⟩ | ⟨failure, rfl, -⟩⟩ :=
    Upload.result_spec ended
  · exact (serves.remote _ finished).1
  · have fine := serves.fine
    rw [returned] at fine
    cases fine

end Serves

theorem Effect.shut {tiers' : Tiers} {u' : Upload} {event : Event}
    (effect : Effect digest tiers u event tiers' u')
    (shut : u.closed = true → u.pipe.werr.isSome = true)
    : u'.closed = true → u'.pipe.werr.isSome = true := by
  cases effect with
  | @closes temp err =>
      intro _
      cases before : u.pipe.werr <;> simp [Pipe.closeWrite, before]
  | remoteReads running taken =>
      obtain ⟨-, -, -, -, -, werr⟩ := Pipe.read_spec taken
      intro closed
      rw [werr]
      exact shut closed
  | _ => exact shut

def ahead (digest : Digest) (tiers : Tiers) (rest : Bytes) (u : Upload) : Nat :=
  u.rank rest + u.seen.isNone.toNat + (!tiers.holds digest).toNat

theorem Effect.ahead_lt {tiers' : Tiers} {u' : Upload} {event : Event} {rest' : Bytes}
    (effect : Effect digest tiers u event tiers' u')
    (left : Flight.remaining rest event = some rest') (moves : event ≠ .remoteEnd)
    (brings : event ≠ .commit)
    : u'.ahead digest tiers' rest' < u.ahead digest tiers rest := by
  have lower := effect.rank_lt left moves brings
  have seen : u'.seen = u.seen := by
    cases effect with
    | remoteSees => exact absurd rfl moves
    | _ => rfl
  have held : (!tiers'.holds digest).toNat ≤ (!tiers.holds digest).toNat := by
    cases holds : tiers.holds digest with
    | true => simp [effect.holds holds]
    | false => cases tiers'.holds digest <;> simp
  simp only [ahead, seen]
  omega

def Advance (digest : Digest) (quits : Bool) (tiers : Tiers) (rest : Bytes) (u : Upload)
    : Prop :=
  ∃ event rest' tiers' u', u.works digest quits event
    ∧ (event = .remoteReturn none → tiers.holds digest = true)
    ∧ Flight.remaining rest event = some rest'
    ∧ u.step digest tiers event = some (tiers', u')
    ∧ u'.ahead digest tiers' rest' < u.ahead digest tiers rest

theorem Advance.of_event {quits : Bool} (event : Event) (allowed : u.works digest quits event)
    (honest : event = .remoteReturn none → tiers.holds digest = true)
    (left : (Flight.remaining rest event).isSome = true)
    (taken : (u.step digest tiers event).isSome = true) (moves : event ≠ .remoteEnd)
    (brings : event ≠ .commit)
    : u.Advance digest quits tiers rest := by
  obtain ⟨rest', left⟩ := Option.isSome_iff_exists.mp left
  obtain ⟨⟨tiers', u'⟩, taken⟩ := Option.isSome_iff_exists.mp taken
  exact ⟨event, rest', tiers', u', allowed, honest, left, taken,
    (step_effect taken).ahead_lt left moves brings⟩

theorem Flow.works_advances {data : Bytes} (flow : u.Flow digest data rest)
    (shut : u.closed = true → u.pipe.werr.isSome = true) (quits : Bool) (tiers : Tiers)
    : u.Advance digest quits tiers rest ∨ u.result.isSome = true := by
  rcases flow.local_advances tiers with
    ⟨event, plain, left, taken⟩ | ⟨⟨written, copying⟩, waiting, notClosed⟩
      | ⟨⟨temp, err, returned⟩, closed⟩
  · left
    refine .of_event event ?_ ?_ left taken ?_ ?_
    · cases event with
      | source read =>
          cases read with
          | data bytes => trivial
          | error err =>
              cases err with
              | eof => exact Or.inl rfl
              | _ => cases plain
      | disk outcome =>
          cases outcome with
          | ok => rfl
          | fail err => cases plain
      | teeReturn => trivial
      | closeWriter => trivial
      | _ => cases plain
    all_goals
      rintro rfl
      cases plain
  · left
    have running : u.remote = none := by
      cases remote : u.remote with
      | none => rfl
      | some err => simp [Pipe.isClosed, flow.reader, remote] at notClosed
    obtain ⟨chunk, pipe, taken, -⟩ := Pipe.read_total notClosed waiting
    exact .of_event (.remoteRead 1) trivial (by simp) rfl (by simp [step, running, taken]) (by simp)
      (by simp)
  · cases remote : u.remote with
    | some remoteErr =>
        right
        cases err <;> simp [result, closed, returned, remote]
    | none =>
        left
        cases seen : u.seen with
        | none =>
            have ended : u.pipe.isClosed = true := by simp [Pipe.isClosed, shut closed]
            refine ⟨.remoteEnd, rest, tiers, { u with seen := some u.pipe.readCloseError },
              trivial, by simp, rfl, by simp [step, remote, Pipe.readEnd, ended], ?_⟩
            simp [ahead, rank, seen]
        | some told =>
            by_cases fits : told = .eof ∧ (u.received.length : Int) = digest.sizeBytes
            · obtain ⟨rfl, sized⟩ := fits
              cases holds : tiers.holds digest with
              | true =>
                  exact .of_event (.remoteReturn none) ⟨seen, sized⟩ (fun _ => holds) rfl
                    (by simp [step, remote]) (by simp) (by simp)
              | false =>
                  refine ⟨.commit, rest, tiers.commit digest u.received, u, sized, by simp, rfl,
                    by simp [step, remote, seen], ?_⟩
                  have now : (tiers.commit digest u.received).holds digest = true := by
                    simp [Tiers.holds, Tiers.commit]
                  simp [ahead, holds, now]
            · have rejects : u.rejects digest = true :=
                (rejects_told seen).mpr (Decidable.not_and_iff_or_not.mp fits)
              exact .of_event (.remoteReturn (some told)) (Or.inr rejects) (by simp) rfl
                (by simp [step, remote]) (by simp) (by simp)

end Upload

namespace Fetch

/-- Events over tiers that work. The remote `Get` finds what the remote tier holds, and its
reader fails only when the client quits.
-/
def works (digest : Digest) (quits : Bool) (tiers : Tiers) : Event → Prop
  | .remoteGet (.fail _) => quits = true ∨ tiers.holds digest = false
  | .source (.error err) => err = .eof ∨ quits = true
  | .disk outcome => outcome = .ok
  | _ => True

instance (digest : Digest) (quits : Bool) (tiers : Tiers) (event : Event)
    : Decidable (works digest quits tiers event) := by
  unfold works
  split <;> infer_instance

def Serves (digest : Digest) (files : Files) : Fetch → Prop
  | .get => True
  | .fill rest localPut =>
      localPut.failed = false
      ∧ (localPut.stored = true → (files digest.hash).isSome = true)
      ∧ ∃ content, (content.length : Int) = digest.sizeBytes ∧ localPut.Carries content rest
  | .returned err => err = none ∧ (files digest.hash).isSome = true

theorem Serves.mono {digest : Digest} {files files' : Files} {fetch : Fetch}
    (serves : fetch.Serves digest files)
    (more : (files digest.hash).isSome = true → (files' digest.hash).isSome = true)
    : fetch.Serves digest files' := by
  cases fetch with
  | get => trivial
  | fill rest localPut => exact ⟨serves.1, fun stored => more (serves.2.1 stored), serves.2.2⟩
  | returned err => exact ⟨serves.1, more serves.2⟩

/-- Every event of a fetch over working tiers keeps it from failing, when the remote tier
holds the blob with the size in the digest and the client does not quit.
-/
theorem Serves.effect {digest : Digest} {tiers tiers' : Tiers} {fetch fetch' : Fetch}
    {event : Event} (serves : fetch.Serves digest tiers.files)
    (effect : Effect digest tiers fetch event tiers' fetch')
    (allowed : works digest false tiers event) (holds : tiers.holds digest = true)
    (sized
      : ∀ content, tiers.remote digest = some content
          → (content.length : Int) = digest.sizeBytes)
    : fetch'.Serves digest tiers'.files := by
  cases effect with
  | @gets content found => exact ⟨rfl, nofun, content, sized content found, rfl⟩
  | getFails =>
      have missing := allowed.resolve_left nofun
      cases holds.symm.trans missing
  | @copies rest rest' localPut next read left copied =>
      obtain ⟨-, -, content, fits, carries⟩ := serves
      have carries' := copy_carries carries left copied
      cases read with
      | data bytes =>
          cases localPut with
          | copy written =>
              obtain rfl := Option.some.inj copied
              exact ⟨rfl, nofun, content, fits, carries'⟩
          | _ => cases copied
      | error err =>
          obtain ⟨-, atEnd⟩ := Read.after_error left
          obtain rfl : err = .eof := allowed.resolve_right nofun
          obtain ⟨written, rfl, ⟨-, -, rfl⟩ | ⟨differs, -⟩⟩ := Put.endCopy_spec copied
          · exact ⟨rfl, nofun, content, fits, carries'⟩
          · obtain rfl : content = written := by simpa [Put.Carries, atEnd rfl] using carries
            exact absurd fits (differs rfl)
  | @writes rest localPut next outcome files taken =>
      obtain rfl : outcome = .ok := allowed
      obtain ⟨fine, stored, content, fits, carries⟩ := serves
      refine ⟨(Put.disk_ok_failed taken).trans fine, ?_, content, fits, carries.disk taken⟩
      rcases Put.disk_cases taken with ⟨written, -, -, -, rfl⟩ | ⟨rfl, back, -⟩
      · simp
      · exact fun now => stored (back now)
  | @ends rest temp err =>
      obtain ⟨fine, stored, -⟩ := serves
      cases err with
      | none => exact ⟨rfl, stored rfl⟩
      | some err => cases fine

def ahead (digest : Digest) (tiers : Tiers) : Fetch → Nat
  | .get => ((tiers.remote digest).getD []).length + 9
  | .fill rest localPut => rest.length + Upload.phase localPut + 1
  | .returned _ => 0

theorem works_advances (digest : Digest) (quits : Bool) (tiers : Tiers) (fetch : Fetch)
    : (∃ event tiers' fetch', works digest quits tiers event
        ∧ fetch.step digest tiers event = some (tiers', fetch')
        ∧ fetch'.ahead digest tiers' < fetch.ahead digest tiers)
      ∨ ∃ err, fetch = .returned err := by
  cases fetch with
  | get =>
      left
      cases found : tiers.remote digest with
      | none =>
          refine ⟨.remoteGet (.fail (.status .notFound "blob not found")), _, _, Or.inr ?_, rfl,
            by simp [ahead]⟩
          simp [Tiers.holds, found]
      | some content =>
          refine ⟨.remoteGet .ok, tiers, .fill content .mkdirAll, trivial,
            by simp [step, found], ?_⟩
          simp [ahead, found, Upload.phase]
  | returned err => exact Or.inr ⟨err, rfl⟩
  | fill rest localPut =>
      left
      cases localPut with
      | copy written =>
          cases rest with
          | nil =>
              obtain ⟨next, ends⟩ := Option.isSome_iff_exists.mp
                (Put.endCopy_isSome digest written .eof)
              have later := Upload.phase_endCopy ends
              refine ⟨.source (.error .eof), tiers, .fill [] next, Or.inl rfl,
                by simp [step, Read.after, copy, ends], ?_⟩
              have before : Upload.phase (.copy written) = 5 := rfl
              simp only [ahead]
              omega
          | cons byte rest =>
              refine ⟨.source (.data (byte :: rest)), tiers,
                .fill [] (.copy (written ++ byte :: rest)), trivial,
                by simp [step, Read.after, copy, Put.write], ?_⟩
              simp [ahead, Upload.phase]
      | returned temp err => exact ⟨.stored, tiers, _, trivial, rfl, by simp [ahead]⟩
      | _ =>
          refine ⟨.disk .ok, _, _, rfl, rfl, ?_⟩
          simp [ahead, Upload.phase]

end Fetch

/-- Clients that upload or fetch one blob: the bytes that a client's reader returns, or none
for a `Get`; whether a client breaks off its upload or cancels its context at some point; and
what the remote tier holds before, with the size in the digest.
-/
structure Clients (Call : Type) where
  digest : Digest
  upload : Call → Option Bytes
  quits : Call → Bool
  putRetryCount : Int
  held : Digest → Option Bytes
  sized : ∀ content, held digest = some content → (content.length : Int) = digest.sizeBytes

namespace Clients

variable {Call : Type}

def request (clients : Clients Call) (call : Call) : Request :=
  match clients.upload call with
  | some data => .put clients.digest data
  | none => .get clients.digest

variable {clients : Clients Call} {call : Call}

theorem request_upload {data : Bytes} (uploads : clients.upload call = some data)
    : clients.request call = .put clients.digest data := by
  simp only [Clients.request, uploads]

theorem request_fetch (fetches : clients.upload call = none)
    : clients.request call = .get clients.digest := by
  simp only [Clients.request, fetches]

def world (clients : Clients Call) : World Call where
  request := clients.request
  putRetryCount := clients.putRetryCount
  held := clients.held

/-- Whether a client supplies the right number of bytes, or asks for a blob that the remote
tier holds, and does not quit.
-/
def serves (clients : Clients Call) (call : Call) : Bool :=
  !clients.quits call
  && match clients.upload call with
    | some data => decide ((data.length : Int) = clients.digest.sizeBytes)
    | none => (clients.held clients.digest).isSome

theorem serves_stays (serves : clients.serves call = true)
    : clients.quits call = false := by
  simp only [Clients.serves, Bool.and_eq_true, Bool.not_eq_true'] at serves
  exact serves.1

theorem serves_sized {data : Bytes} (serves : clients.serves call = true)
    (uploads : clients.upload call = some data)
    : (data.length : Int) = clients.digest.sizeBytes := by
  simp only [Clients.serves, uploads, Bool.and_eq_true, decide_eq_true_eq] at serves
  exact serves.2

theorem serves_held (serves : clients.serves call = true) (fetches : clients.upload call = none)
    : (clients.held clients.digest).isSome = true := by
  simp only [Clients.serves, fetches, Bool.and_eq_true] at serves
  exact serves.2

theorem upload_of_key {other : Call}
    (same : (clients.request call).key = (clients.request other).key)
    (fetches : clients.upload call = none)
    : clients.upload other = none := by
  cases uploads : clients.upload other with
  | none => rfl
  | some data =>
      rw [request_fetch fetches, request_upload uploads] at same
      cases same

@[simp]
theorem request_digest (clients : Clients Call) (call : Call)
    : (clients.request call).digest = clients.digest := by
  unfold Clients.request
  split <;> rfl

structure Stocked (clients : Clients Call) (tiers : Tiers) : Prop where
  held : (clients.held clients.digest).isSome = true → tiers.holds clients.digest = true
  sized
    : ∀ content, tiers.remote clients.digest = some content
        → (content.length : Int) = clients.digest.sizeBytes

end Clients

namespace Flight

variable {Call : Type} {clients : Clients Call} {call : Call} {tiers tiers' : Tiers}
  {flight flight' : Flight} {event : Event} {limit : Nat}

def works (digest : Digest) (quits : Bool) (tiers : Tiers) : Flight → Event → Prop
  | .put _ u, .put event => u.works digest quits event
  | .get _, .get event => Fetch.works digest quits tiers event
  | _, _ => True

instance (digest : Digest) (quits : Bool) (tiers : Tiers) (flight : Flight) (event : Event)
    : Decidable (flight.works digest quits tiers event) := by
  unfold works
  split <;> infer_instance

def ahead (digest : Digest) (tiers : Tiers) : Flight → Nat
  | .put rest u => u.ahead digest tiers rest
  | .get fetch => fetch.ahead digest tiers
  | .putFile _ => 0

/-- A flight that a client leads. It has not failed when its client serves. -/
def Led (clients : Clients Call) (call : Call) (tiers : Tiers) : Flight → Prop
  | .put rest u =>
      (u.closed = true → u.pipe.werr.isSome = true)
      ∧ ∃ data, clients.upload call = some data
        ∧ u.Flow clients.digest data rest
        ∧ (clients.serves call = true → u.Serves)
  | .get fetch =>
      clients.upload call = none
      ∧ (clients.serves call = true → fetch.Serves clients.digest tiers.files)
  | .putFile _ => False

structure Stocks (clients : Clients Call) (tiers tiers' : Tiers) : Prop where
  stocked : clients.Stocked tiers'
  files
    : (tiers.files clients.digest.hash).isSome = true
        → (tiers'.files clients.digest.hash).isSome = true

theorem led_new (begins : (clients.request call).flight = some flight)
    : flight.Led clients call tiers := by
  cases uploads : clients.upload call with
  | some data =>
      rw [Clients.request_upload uploads] at begins
      obtain rfl := Option.some.inj begins
      exact ⟨nofun, data, uploads, Upload.flow_new _ _, fun _ => Upload.serves_new⟩
  | none =>
      rw [Clients.request_fetch uploads] at begins
      obtain rfl := Option.some.inj begins
      exact ⟨uploads, fun _ => trivial⟩

theorem files_rename {files : Files} {hash other : String} {content : Bytes}
    (found : (files other).isSome = true)
    : (Function.update files hash (some content) other).isSome = true := by
  by_cases same : other = hash
  · subst same
    simp
  · rwa [Function.update_of_ne same]

theorem Led.effect (led : flight.Led clients call tiers) (stocked : clients.Stocked tiers)
    (effect : Effect limit (clients.request call) tiers flight event tiers' flight')
    (allowed : flight.works clients.digest (clients.quits call) tiers event)
    : flight'.Led clients call tiers' ∧ Stocks clients tiers tiers' := by
  cases effect with
  | @put rest rest' u u' event tiers' left effect honest =>
      rw [clients.request_digest] at effect
      obtain ⟨shut, data, uploads, flow, serving⟩ := led
      refine ⟨⟨effect.shut shut, data, uploads, flow.effect left effect, fun serves => ?_⟩,
        ⟨fun held => effect.holds (stocked.held held), ?_⟩, ?_⟩
      · rw [Clients.serves_stays serves] at allowed
        exact (serving serves).effect flow (Clients.serves_sized serves uploads) left effect
          allowed
      · intro content found
        cases effect with
        | commits =>
            have stored : u.received = content := by simpa [Tiers.commit] using found
            exact stored ▸ allowed
        | _ => exact stocked.sized content found
      · rcases effect.tiers_cases with rfl | ⟨written, -, rfl⟩ | ⟨-, rfl⟩
        · exact id
        · exact files_rename
        · exact id
  | putFile => exact led.elim
  | @get fetch fetch' event tiers' taken =>
      rw [clients.request_digest] at taken
      obtain ⟨fetches, serving⟩ := led
      have effect := Fetch.step_effect taken
      have remote : tiers'.remote = tiers.remote := by cases effect <;> rfl
      refine ⟨⟨fetches, fun serves => ?_⟩, ⟨fun held => ?_, ?_⟩, ?_⟩
      · rw [works, Clients.serves_stays serves] at allowed
        exact (serving serves).effect effect allowed
          (stocked.held (Clients.serves_held serves fetches)) stocked.sized
      · simpa only [Tiers.holds, remote] using stocked.held held
      · rw [remote]
        exact stocked.sized
      · cases effect with
        | writes called =>
            rcases Put.disk_cases called with ⟨written, -, -, -, rfl⟩ | ⟨rfl, -, -⟩
            · exact files_rename
            · exact id
        | _ => exact id

theorem Led.mono (led : flight.Led clients call tiers) (stocks : Stocks clients tiers tiers')
    : flight.Led clients call tiers' := by
  cases flight with
  | put rest u => exact led
  | putFile impl => exact led
  | get fetch => exact ⟨led.1, fun serves => (led.2 serves).mono stocks.files⟩

theorem Led.result_nil (led : flight.Led clients call tiers) {err : Option IoError}
    (ended : flight.result = some err) (serves : clients.serves call = true)
    : err = none
      ∧ (clients.upload call = none → (tiers.files clients.digest.hash).isSome = true) := by
  obtain ⟨rest, u, rfl, result⟩ | rfl | rfl := result_spec ended
  · obtain ⟨-, data, uploads, -, serving⟩ := led
    refine ⟨(serving serves).result_nil result, fun fetches => ?_⟩
    cases uploads.symm.trans fetches
  · exact led.elim
  · exact ⟨(led.2 serves).1, fun _ => (led.2 serves).2⟩

theorem Led.advances (led : flight.Led clients call tiers) (limit : Nat)
    : (∃ event tiers' flight', flight.works clients.digest (clients.quits call) tiers event
        ∧ flight.step limit (clients.request call) tiers event = some (tiers', flight')
        ∧ flight'.ahead clients.digest tiers' < flight.ahead clients.digest tiers
        ∧ (clients.upload call = none → tiers'.remote = tiers.remote))
      ∨ ∃ err, flight.result = some err := by
  cases flight with
  | put rest u =>
      obtain ⟨shut, data, uploads, flow, -⟩ := led
      rcases flow.works_advances shut (clients.quits call) tiers with
        ⟨event, rest', tiers', u', allowed, honest, left, taken, lower⟩ | ended
      · left
        refine ⟨.put event, tiers', .put rest' u', allowed, ?_, lower,
          fun fetches => nomatch uploads.symm.trans fetches⟩
        have honest : ((Event.put event).succeeds && !tiers.holds clients.digest) = false := by
          by_cases nil : event = .remoteReturn none
          · simp [honest nil]
          · simp [Event.succeeds, nil]
        simp [step, advance, honest, left, taken]
      · exact Or.inr (Option.isSome_iff_exists.mp ended)
  | putFile impl => exact led.elim
  | get fetch =>
      rcases Fetch.works_advances clients.digest (clients.quits call) tiers fetch with
        ⟨event, tiers', fetch', allowed, taken, lower⟩ | ⟨err, rfl⟩
      · left
        refine ⟨.get event, tiers', .get fetch', allowed, ?_, lower, fun _ => ?_⟩
        · simp [step, advance, Event.succeeds, taken]
        · cases Fetch.step_effect taken <;> rfl
      · exact Or.inr ⟨err, rfl⟩

end Flight

def Reply.success : Reply → Bool
  | .put err => err.isNone
  | .get (.ok _) => true
  | _ => false

def Reply.error? : Reply → Option IoError
  | .put err => err
  | .get (.ok _) => none
  | .get (.error err) => some err
  | .has _ err => err

def Pc.flies {Call : Type} : Pc Call → Bool
  | .flying _ => true
  | _ => false

theorem Pc.flies_eq_true {Call : Type} {pc : Pc Call} (flies : pc.flies = true)
    : ∃ flight, pc = .flying flight := by
  cases pc with
  | flying flight => exact ⟨flight, rfl⟩
  | _ => cases flies

section Results

variable {Call : Type}

/-- The places of a call that has left `group.Do`, or has not needed it. -/
def Pc.past : Pc Call → Bool
  | .opening | .asking | .returned _ => true
  | _ => false

def State.Left (s : State Call) : Prop :=
  ∀ call, (s.results call).isSome = true → (s.pcs call).past = true

/-- A call that has joined a flight still waits for it, or the flight has landed and the call
has returned its error, if it had one.
-/
def State.Shares (s : State Call) (call leader : Call) : Prop :=
  s.pcs call = .joined leader
  ∨ ∃ err, s.results leader = some err
      ∧ ∀ e, err = some e → ∃ reply, s.pcs call = .returned reply ∧ reply.error? = some e

theorem Request.landed_past (request : Request) (err : Option IoError)
    : (request.landed err : Pc Call).past = true := by
  cases request <;> cases err <;> rfl

theorem Request.landed_error (request : Request) (e : IoError)
    : ∃ reply, (request.landed (some e) : Pc Call) = .returned reply
        ∧ reply.error? = some e := by
  cases request <;> exact ⟨_, rfl, rfl⟩

variable [DecidableEq Call] {world : World Call} {s s' : State Call} {call leader : Call}
  {move : Move}

theorem State.Left.setPc (left : s.Left) {pc : Pc Call}
    (past : (s.pcs call).past = true → pc.past = true)
    : (s.setPc call pc).Left := by
  intro other landed
  by_cases same : other = call
  · subst same
    exact (congrArg Pc.past (State.setPc_self ..)).trans (past (left other landed))
  · exact (congrArg Pc.past (State.setPc_of_ne s same pc)).trans (left other landed)

theorem State.Left.effect (left : s.Left) (effect : Effect world s call move s') : s'.Left := by
  cases effect with
  | checked at_ => exact left.setPc (by simp [at_, Pc.past])
  | joins at_ => exact left.setPc (by simp [at_, Pc.past])
  | leads at_ => exact left.setPc (by simp [at_, Pc.past])
  | flies at_ => exact left.setPc (by simp [at_, Pc.past])
  | wakes at_ => exact left.setPc (by simp [at_, Pc.past])
  | opens at_ => exact left.setPc (fun _ => rfl)
  | asks at_ => exact left.setPc (fun _ => rfl)
  | @leaves flight err at_ ended =>
      intro other landed
      by_cases same : other = call
      · subst same
        exact (congrArg Pc.past (State.setPc_self ..)).trans (Request.landed_past ..)
      · exact (congrArg Pc.past (State.setPc_of_ne s same _)).trans
          (left other (by simpa [Function.update_of_ne same] using landed))

/-- A flight lands once: its leader is past the group from then on. -/
theorem State.Left.results_kept (left : s.Left) (effect : Effect world s call move s')
    {err : Option IoError} (landed : s.results leader = some err)
    : s'.results leader = some err := by
  cases effect with
  | leaves at_ ended =>
      have past := left leader (landed ▸ rfl)
      have apart : leader ≠ call := by
        rintro rfl
        simp [at_, Pc.past] at past
      exact (Function.update_of_ne apart ..).trans landed
  | _ => exact landed

theorem Effect.of_returned {reply : Reply} (returned : s.pcs call = .returned reply)
    : ¬ Effect world s call move s' := by
  rintro (⟨at_⟩ | ⟨at_⟩ | ⟨at_⟩ | ⟨at_⟩ | ⟨at_⟩ | ⟨at_⟩ | ⟨at_⟩ | ⟨at_⟩) <;>
    simp [returned] at at_

theorem Effect.pcs_of_ne {other : Call} (effect : Effect world s call move s')
    (apart : other ≠ call)
    : s'.pcs other = s.pcs other := by
  cases effect <;> exact State.setPc_of_ne s apart _

theorem State.Shares.effect {other : Call} (shares : s.Shares other leader) (left : s.Left)
    (effect : Effect world s call move s')
    : s'.Shares other leader := by
  rcases shares with joined | ⟨err, landed, returns⟩
  · by_cases same : other = call
    · subst same
      cases effect with
      | @wakes joined' err at_ landed =>
          obtain rfl : joined' = leader := by simpa [joined, eq_comm] using at_
          refine Or.inr ⟨err, landed, ?_⟩
          rintro e rfl
          obtain ⟨reply, returned, error⟩ := @Request.landed_error Call
            (world.request other) e
          exact ⟨reply, (State.setPc_self ..).trans returned, error⟩
      | _ at_ => simp [joined] at at_
    · exact Or.inl ((effect.pcs_of_ne same).trans joined)
  · refine Or.inr ⟨err, left.results_kept effect landed, fun e failed => ?_⟩
    obtain ⟨reply, returned, error⟩ := returns e failed
    by_cases same : other = call
    · subst same
      exact absurd effect (Effect.of_returned returned)
    · exact ⟨reply, (effect.pcs_of_ne same).trans returned, error⟩

end Results

namespace Clients

variable {Call : Type} {clients : Clients Call}

def works (clients : Clients Call) (s : State Call) (label : Label Call) : Prop :=
  match s.pcs label.call, label.move with
  | .flying flight, .flight event =>
      flight.works clients.digest (clients.quits label.call) s.tiers event
  | _, .stat outcome => outcome = .ok
  | _, .openFile outcome => outcome = .ok
  | _, _ => True

instance (clients : Clients Call) (s : State Call) (label : Label Call)
    : Decidable (clients.works s label) := by
  unfold Clients.works
  split <;> infer_instance

def joinsServing (clients : Clients Call) (me : Call) (s : State Call) (label : Label Call)
    : Prop :=
  match label.move, s.group (clients.request label.call).key with
  | .enter, some leader => label.call = me → clients.serves leader = true
  | _, _ => True

/-- The steps over working tiers in which one client joins only a client that serves. -/
def steps (clients : Clients Call) (me : Call) (s : State Call) (label : Label Call) : Prop :=
  clients.works s label ∧ clients.joinsServing me s label

instance [DecidableEq Call] (clients : Clients Call) (me : Call) (s : State Call)
    (label : Label Call)
    : Decidable (clients.steps me s label) := by
  unfold steps joinsServing
  split <;> infer_instance

def At (clients : Clients Call) (me : Call) (s : State Call) (call : Call) : Prop :=
  match s.pcs call with
  | .start => True
  | .entering => True
  | .flying flight => flight.Led clients call s.tiers
  | .joined leader =>
      (clients.request leader).key = (clients.request call).key
      ∧ (call = me → clients.serves leader = true)
      ∧ ((s.pcs leader).flies = true ∨ (s.results leader).isSome = true)
  | .opening =>
      clients.upload call = none
      ∧ (call = me → (s.tiers.files clients.digest.hash).isSome = true)
  | .asking => False
  | .returned reply => call = me → reply.success = true

structure Sound (clients : Clients Call) (me : Call) (s : State Call) : Prop where
  serving : clients.serves me = true
  stocked : clients.Stocked s.tiers
  leader
    : ∀ key call, s.group key = some call
        → (clients.request call).key = key ∧ (s.pcs call).flies = true
  landed
    : ∀ call err, s.results call = some err → clients.serves call = true
        → err = none
          ∧ (clients.upload call = none
            → (s.tiers.files clients.digest.hash).isSome = true)
  at_ : ∀ call, clients.At me s call

variable {me call : Call} {s' : State Call}

theorem At.landed (leader : Call) {err : Option IoError}
    (pc : s'.pcs call = (clients.request call).landed err)
    (key : (clients.request leader).key = (clients.request call).key)
    (shares : call = me → clients.serves leader = true) (nil
      : clients.serves leader = true
          → err = none
            ∧ (clients.upload leader = none
              → (s'.tiers.files clients.digest.hash).isSome = true))
    : clients.At me s' call := by
  cases uploads : clients.upload call with
  | some data =>
      rw [request_upload uploads] at pc
      rw [At, pc]
      intro serves
      rw [(nil (shares serves)).1]
      rfl
  | none =>
      rw [request_fetch uploads] at pc
      cases err with
      | none =>
          rw [At, pc]
          refine ⟨uploads, fun serves => (nil (shares serves)).2 ?_⟩
          exact upload_of_key key.symm uploads
      | some err =>
          rw [At, pc]
          intro serves
          cases (nil (shares serves)).1

theorem At.checked (pc : s'.pcs call = (clients.request call).checked s'.tiers .ok)
    : clients.At me s' call := by
  cases uploads : clients.upload call with
  | some data =>
      rw [request_upload uploads] at pc
      simp only [Request.checked, true_and] at pc
      split at pc
      next =>
        rw [At, pc]
        exact fun _ => rfl
      next =>
        rw [At, pc]
        trivial
  | none =>
      rw [request_fetch uploads] at pc
      simp only [Request.checked, true_and] at pc
      split at pc
      next hit =>
        rw [At, pc]
        exact ⟨uploads, fun _ => hit⟩
      next =>
        rw [At, pc]
        trivial

theorem At.mono {s : State Call} (at_ : clients.At me s call) (pc : s'.pcs call = s.pcs call)
    (stocks : Flight.Stocks clients s.tiers s'.tiers) (leaders
      : ∀ leader, (s.pcs leader).flies = true ∨ (s.results leader).isSome = true
          → (s'.pcs leader).flies = true ∨ (s'.results leader).isSome = true)
    : clients.At me s' call := by
  unfold At at *
  rw [pc]
  split at at_
  next => trivial
  next => trivial
  next => exact at_.mono stocks
  next => exact ⟨at_.1, at_.2.1, leaders _ at_.2.2⟩
  next => exact ⟨at_.1, fun serves => stocks.files (at_.2 serves)⟩
  next => exact at_
  next => exact at_

namespace Sound

variable {me call : Call} {s s' : State Call}

theorem same (sound : clients.Sound me s) : Flight.Stocks clients s.tiers s.tiers :=
  ⟨sound.stocked, id⟩

variable [DecidableEq Call]

theorem moves (sound : clients.Sound me s) {pc : Pc Call}
    (grounded : (s.pcs call).flies = false) (here : clients.At me (s.setPc call pc) call)
    : clients.Sound me (s.setPc call pc) := by
  have flies (other : Call) (flying : (s.pcs other).flies = true)
      : ((s.setPc call pc).pcs other).flies = true := by
    by_cases same : other = call
    · subst same
      cases grounded.symm.trans flying
    · rwa [s.setPc_of_ne same]
  refine ⟨sound.serving, sound.stocked, fun key other led => ?_, sound.landed, fun other => ?_⟩
  · exact ⟨(sound.leader key other led).1, flies other (sound.leader key other led).2⟩
  · by_cases same : other = call
    · subst same
      exact here
    · exact (sound.at_ other).mono (s.setPc_of_ne same pc) sound.same
        (fun leader => Or.imp_left (flies leader))

theorem leads (sound : clients.Sound me s) {flight : Flight}
    (grounded : (s.pcs call).flies = false)
    (begins : (clients.request call).flight = some flight)
    : clients.Sound me
        { s.setPc call (.flying flight) with
          group := Function.update s.group (clients.request call).key (some call) } := by
  have led : flight.Led clients call s.tiers := Flight.led_new begins
  have here : clients.At me (s.setPc call (.flying flight)) call := by
    rw [At, State.setPc_self]
    exact led
  have moved := sound.moves grounded here
  refine ⟨sound.serving, moved.stocked, ?_, moved.landed, moved.at_⟩
  intro key other held
  rcases update_cases id held with ⟨rfl, new⟩ | ⟨-, old⟩
  · obtain rfl := Option.some.inj new
    exact ⟨rfl, by simp only [State.setPc_self, Pc.flies]⟩
  · exact moved.leader key other old

theorem flies (sound : clients.Sound me s) {flight flight' : Flight} {event : Flight.Event}
    {tiers' : Tiers} {limit : Nat} (at_ : s.pcs call = .flying flight)
    (effect
      : Flight.Effect limit (clients.request call) s.tiers flight event tiers' flight')
    (allowed : flight.works clients.digest (clients.quits call) s.tiers event)
    : clients.Sound me { s.setPc call (.flying flight') with tiers := tiers' } := by
  have led := sound.at_ call
  rw [At, at_] at led
  obtain ⟨led', stocks⟩ := Flight.Led.effect led sound.stocked effect allowed
  have flying (other : Call) (before : (s.pcs other).flies = true)
      : ((s.setPc call (.flying flight')).pcs other).flies = true := by
    by_cases same : other = call
    · subst same
      rw [State.setPc_self]
      rfl
    · rwa [s.setPc_of_ne same]
  refine ⟨sound.serving, stocks.stocked, fun key other held => ?_,
    fun other err landed serves => ?_, fun other => ?_⟩
  · exact ⟨(sound.leader key other held).1, flying other (sound.leader key other held).2⟩
  · obtain ⟨nil, stored⟩ := sound.landed other err landed serves
    exact ⟨nil, fun fetches => stocks.files (stored fetches)⟩
  · by_cases same : other = call
    · subst same
      simpa only [At, State.setPc_self] using led'
    · exact (sound.at_ other).mono (s.setPc_of_ne same _) stocks
        (fun leader => Or.imp_left (flying leader))

theorem leaves (sound : clients.Sound me s) {flight : Flight} {err : Option IoError}
    (at_ : s.pcs call = .flying flight) (ended : flight.result = some err)
    : clients.Sound me
        { s.setPc call ((clients.request call).landed err) with
          group := Function.update s.group (clients.request call).key none
          results := Function.update s.results call (some err) } := by
  have led := sound.at_ call
  rw [At, at_] at led
  have nil := led.result_nil ended
  refine ⟨sound.serving, sound.stocked, ?_, ?_, ?_⟩
  · intro key other held
    rcases update_cases id held with ⟨-, new⟩ | ⟨apart, old⟩
    · cases new
    · obtain ⟨key_, flying⟩ := sound.leader key other old
      refine ⟨key_, ?_⟩
      have differ : other ≠ call := by
        rintro rfl
        exact apart key_.symm
      simpa only [s.setPc_of_ne differ] using flying
  · intro other result landed serves
    rcases update_cases id landed with ⟨rfl, new⟩ | ⟨-, old⟩
    · obtain rfl := Option.some.inj new
      exact nil serves
    · exact sound.landed other result old serves
  · intro other
    by_cases same : other = call
    · subst same
      exact At.landed other (State.setPc_self ..) rfl (fun same => same ▸ sound.serving) nil
    · refine (sound.at_ other).mono (s.setPc_of_ne same _) sound.same (fun leader known => ?_)
      by_cases itself : leader = call
      · subst itself
        simp
      · simpa only [s.setPc_of_ne itself, Function.update_of_ne itself] using known

/-- Every step over working tiers in which the client joins only one that serves keeps the store
sound.
-/
theorem effect (sound : clients.Sound me s) {label : Label Call}
    (allowed : clients.steps me s label)
    (effect : Effect clients.world s label.call label.move s')
    : clients.Sound me s' := by
  obtain ⟨works, joins⟩ := allowed
  obtain ⟨call, move⟩ := label
  have place := sound.at_ call
  cases effect with
  | @checked outcome at_ =>
      obtain rfl : outcome = .ok := by simpa only [Clients.works, at_] using works
      exact sound.moves (by rw [at_]; rfl) (At.checked (State.setPc_self ..))
  | @joins leader at_ found =>
      obtain ⟨key, flying⟩ := sound.leader _ leader found
      have shares : call = me → clients.serves leader = true := by
        have found : s.group (clients.request call).key = some leader := found
        simpa only [joinsServing, found] using joins
      refine sound.moves (by rw [at_]; rfl) ?_
      have apart : leader ≠ call := by
        rintro rfl
        rw [at_] at flying
        cases flying
      simp only [At, State.setPc_self, s.setPc_of_ne apart]
      exact ⟨key, shares, Or.inl flying⟩
  | leads at_ free begins => exact sound.leads (by rw [at_]; rfl) begins
  | flies at_ taken =>
      exact sound.flies at_ (Flight.step_effect taken)
        (by simpa only [Clients.works, at_] using works)
  | leaves at_ ended => exact sound.leaves at_ ended
  | @wakes leader err at_ landed =>
      rw [At, at_] at place
      exact sound.moves (by rw [at_]; rfl) (At.landed leader (State.setPc_self ..) place.1
        place.2.1 (sound.landed leader err landed))
  | @opens outcome at_ =>
      obtain rfl : outcome = .ok := by simpa only [Clients.works, at_] using works
      rw [At, at_] at place
      refine sound.moves (by rw [at_]; rfl) ?_
      simp only [At, State.setPc_self]
      intro serves
      obtain ⟨content, found⟩ := Option.isSome_iff_exists.mp (place.2 serves)
      have digest : (clients.world.request call).digest = clients.digest :=
        clients.request_digest call
      simp [Request.opened, digest, found, Reply.success]
  | asks at_ =>
      rw [At, at_] at place
      exact place.elim

end Sound

def flightAhead (clients : Clients Call) (s : State Call) (call : Call) : Nat :=
  match s.pcs call with
  | .flying flight => flight.ahead clients.digest s.tiers
  | _ => 0

def keyAhead (clients : Clients Call) (s : State Call) (call : Call) : Nat :=
  match s.group (clients.request call).key with
  | some leader => clients.flightAhead s leader + 1
  | none => 0

def newAhead (clients : Clients Call) (tiers : Tiers) (call : Call) : Nat :=
  match clients.upload call with
  | some data => Upload.rank data {} + 2
  | none => ((tiers.remote clients.digest).getD []).length + 9

def rank (clients : Clients Call) (call : Call) (s : State Call) : Nat :=
  match s.pcs call with
  | .start => clients.newAhead s.tiers call + clients.keyAhead s call + 5
  | .entering => clients.newAhead s.tiers call + clients.keyAhead s call + 4
  | .flying flight => flight.ahead clients.digest s.tiers + 3
  | .joined leader =>
      if (s.results leader).isSome then 2 else clients.flightAhead s leader + 3
  | .opening => 1
  | _ => 0

theorem newAhead_flight {flight : Flight} (tiers : Tiers)
    (begins : (clients.request call).flight = some flight)
    : flight.ahead clients.digest tiers ≤ clients.newAhead tiers call := by
  cases uploads : clients.upload call with
  | some data =>
      rw [request_upload uploads] at begins
      obtain rfl := Option.some.inj begins
      simp only [Flight.ahead, Upload.ahead, newAhead, uploads]
      cases tiers.holds clients.digest <;> simp
  | none =>
      rw [request_fetch uploads] at begins
      obtain rfl := Option.some.inj begins
      simp [Flight.ahead, Fetch.ahead, newAhead, uploads]

theorem request_flight (clients : Clients Call) (call : Call)
    : ∃ flight, (clients.request call).flight = some flight := by
  unfold Clients.request
  split <;> exact ⟨_, rfl⟩

section Progress

variable {s : State Call} {call : Call}

theorem rank_landed {s' : State Call} {err : Option IoError}
    (pc : s'.pcs call = (clients.request call).landed err)
    : clients.rank call s' ≤ 1 := by
  cases uploads : clients.upload call with
  | some data =>
      rw [request_upload uploads] at pc
      simp [rank, pc, Request.landed]
  | none =>
      rw [request_fetch uploads] at pc
      cases err <;> simp [rank, pc, Request.landed]

variable [DecidableEq Call]

theorem Sound.flight_step (sound : clients.Sound me s) {flight : Flight}
    (at_ : s.pcs call = .flying flight)
    : (∃ event tiers' flight', clients.steps me s ⟨call, .flight event⟩
        ∧ step clients.world s ⟨call, .flight event⟩
          = some { s.setPc call (.flying flight') with tiers := tiers' }
        ∧ flight'.ahead clients.digest tiers' < flight.ahead clients.digest s.tiers
        ∧ (clients.upload call = none → tiers'.remote = s.tiers.remote))
      ∨ ∃ err, clients.steps me s ⟨call, .leave⟩
        ∧ step clients.world s ⟨call, .leave⟩
          = some
            { s.setPc call ((clients.request call).landed err) with
              group := Function.update s.group (clients.request call).key none
              results := Function.update s.results call (some err) } := by
  have led := sound.at_ call
  rw [At, at_] at led
  rcases led.advances clients.world.limit with
    ⟨event, tiers', flight', works, taken, lower, remote⟩ | ⟨err, ended⟩
  · refine Or.inl ⟨event, tiers', flight', ⟨?_, trivial⟩, ?_, lower, remote⟩
    · simpa only [Clients.works, at_] using works
    · have taken : flight.step clients.world.limit (clients.world.request call) s.tiers event
          = some (tiers', flight') := taken
      simp only [step, at_, taken, Option.map_some]
  · refine Or.inr ⟨err, ⟨?_, trivial⟩, ?_⟩
    · simp only [Clients.works, at_]
    · simp only [step, at_, ended, Option.map_some]
      rfl

theorem Sound.key_advances (sound : clients.Sound me s) {leader : Call}
    (at_ : s.pcs call = .entering) (held : s.group (clients.request call).key = some leader)
    : ∃ label s', clients.steps me s label ∧ step clients.world s label = some s'
        ∧ clients.rank call s' < clients.rank call s := by
  obtain ⟨key, flying⟩ := sound.leader _ leader held
  have apart : call ≠ leader := by
    rintro rfl
    rw [at_] at flying
    cases flying
  obtain ⟨flight, leads⟩ := Pc.flies_eq_true flying
  rcases sound.flight_step leads with
    ⟨event, tiers', flight', allowed, taken, lower, remote⟩ | ⟨err, allowed, taken⟩
  · refine ⟨_, _, allowed, taken, ?_⟩
    have same : clients.newAhead tiers' call = clients.newAhead s.tiers call := by
      cases uploads : clients.upload call with
      | some data => simp only [newAhead, uploads]
      | none => simp only [newAhead, uploads, remote (upload_of_key key.symm uploads)]
    simp only [rank, s.setPc_of_ne apart, at_, same, keyAhead, held, flightAhead,
      leads]
    simp only [State.setPc, held, Function.update_self]
    omega
  · refine ⟨_, _, allowed, taken, ?_⟩
    simp only [rank, s.setPc_of_ne apart, at_, keyAhead, held, key, Function.update_self]
    simp only [State.setPc]
    omega

theorem flightAhead_setPc {leader : Call} (apart : leader ≠ call) (pc : Pc Call)
    : clients.flightAhead (s.setPc call pc) leader = clients.flightAhead s leader := by
  simp only [flightAhead, s.setPc_of_ne apart]
  rfl

theorem Sound.keyAhead_setPc (sound : clients.Sound me s)
    (grounded : (s.pcs call).flies = false) (pc : Pc Call)
    : clients.keyAhead (s.setPc call pc) call = clients.keyAhead s call := by
  have group : (s.setPc call pc).group = s.group := rfl
  simp only [keyAhead, group]
  split
  next leader held =>
    have apart : leader ≠ call := by
      rintro rfl
      cases grounded.symm.trans (sound.leader _ leader held).2
    rw [flightAhead_setPc apart]
  next => rfl

theorem Sound.rank_checked (sound : clients.Sound me s) (at_ : s.pcs call = .start)
    : clients.rank call (s.setPc call ((clients.request call).checked s.tiers .ok))
      < clients.rank call s := by
  have key := sound.keyAhead_setPc (by rw [at_]; rfl) .entering
  have entering : clients.rank call (s.setPc call .entering) < clients.rank call s := by
    simp only [rank, State.setPc_self, at_, key]
    exact Nat.lt_succ_self _
  have past {pc : Pc Call} (low : clients.rank call (s.setPc call pc) ≤ 1)
      : clients.rank call (s.setPc call pc) < clients.rank call s := by
    refine Nat.lt_of_le_of_lt low ?_
    simp only [rank, at_]
    omega
  cases uploads : clients.upload call with
  | some data =>
      rw [request_upload uploads]
      simp only [Request.checked, true_and]
      split
      · exact past (by simp [rank])
      · exact entering
  | none =>
      rw [request_fetch uploads]
      simp only [Request.checked, true_and]
      split
      · exact past (by simp [rank])
      · exact entering

theorem Sound.joined_advances (sound : clients.Sound me s) {leader : Call}
    (at_ : s.pcs call = .joined leader)
    : ∃ label s', clients.steps me s label ∧ step clients.world s label = some s'
        ∧ clients.rank call s' < clients.rank call s := by
  have place := sound.at_ call
  rw [At, at_] at place
  cases landed : s.results leader with
  | some err =>
      refine ⟨⟨call, .wake⟩, s.setPc call ((clients.request call).landed err),
        ⟨by simp only [Clients.works, at_], trivial⟩, ?_, ?_⟩
      · simp only [step, at_, landed, Option.map_some]
        rfl
      · refine Nat.lt_of_le_of_lt (rank_landed (State.setPc_self ..)) ?_
        simp [rank, at_, landed]
  | none =>
      have flying := place.2.2.resolve_right (by simp [landed])
      have apart : call ≠ leader := by
        rintro rfl
        rw [at_] at flying
        cases flying
      obtain ⟨flight, leads⟩ := Pc.flies_eq_true flying
      rcases sound.flight_step leads with
        ⟨event, tiers', flight', allowed, taken, lower, -⟩ | ⟨err, allowed, taken⟩
      · refine ⟨_, _, allowed, taken, ?_⟩
        have unlanded : (s.setPc leader (.flying flight')).results leader = none := landed
        simp only [rank, s.setPc_of_ne apart, at_, unlanded, landed, flightAhead,
          State.setPc_self, leads]
        simp only [Option.isSome_none, Bool.false_eq_true, if_false]
        omega
      · refine ⟨_, _, allowed, taken, ?_⟩
        simp only [rank, s.setPc_of_ne apart, at_, Function.update_self, landed]
        simp

theorem Sound.advances (sound : clients.Sound me s) (serves : clients.serves call = true)
    (running : ¬ ∃ reply, s.pcs call = .returned reply)
    : ∃ label s', clients.steps me s label ∧ step clients.world s label = some s'
        ∧ clients.rank call s' < clients.rank call s := by
  have place := sound.at_ call
  cases at_ : s.pcs call with
  | start =>
      refine ⟨⟨call, .stat .ok⟩, _, ⟨by simp only [Clients.works, at_], trivial⟩,
        by simp only [step, at_]; rfl, sound.rank_checked at_⟩
  | entering =>
      cases held : s.group (clients.request call).key with
      | none =>
          obtain ⟨flight, begins⟩ := clients.request_flight call
          have few := newAhead_flight s.tiers begins
          refine ⟨⟨call, .enter⟩,
            { s.setPc call (.flying flight) with
              group := Function.update s.group (clients.request call).key (some call) },
            ⟨by simp only [Clients.works, at_], by simp only [joinsServing, held]⟩, ?_, ?_⟩
          · have held : s.group (clients.world.request call).key = none := held
            have begins : (clients.world.request call).flight = some flight := begins
            simp only [step, at_, held, begins, Option.map_some]
            rfl
          · simp only [rank, State.setPc_self, at_]
            simp only [State.setPc]
            omega
      | some leader =>
          by_cases shares : clients.serves leader = true
          · refine ⟨⟨call, .enter⟩, s.setPc call (.joined leader),
              ⟨by simp only [Clients.works, at_], ?_⟩, ?_, ?_⟩
            · simp only [joinsServing, held]
              exact fun _ => shares
            · have held : s.group (clients.world.request call).key = some leader := held
              simp only [step, at_, held]
            · have apart : leader ≠ call := by
                rintro rfl
                have flying := (sound.leader _ leader held).2
                rw [at_] at flying
                cases flying
              simp only [rank, State.setPc_self, at_, keyAhead, held,
                flightAhead_setPc apart]
              split <;> omega
          · exact sound.key_advances at_ held
  | flying flight =>
      rcases sound.flight_step at_ with
        ⟨event, tiers', flight', allowed, taken, lower, -⟩ | ⟨err, allowed, taken⟩
      · refine ⟨_, _, allowed, taken, ?_⟩
        simp only [rank, State.setPc_self, at_]
        omega
      · refine ⟨_, _, allowed, taken, Nat.lt_of_le_of_lt (rank_landed (State.setPc_self ..)) ?_⟩
        simp only [rank, at_]
        omega
  | joined leader => exact sound.joined_advances at_
  | opening =>
      refine ⟨⟨call, .openFile .ok⟩, _, ⟨by simp only [Clients.works, at_], trivial⟩,
        by simp only [step, at_]; rfl, ?_⟩
      simp [rank, at_]
  | asking =>
      rw [At, at_] at place
      exact place.elim
  | returned reply => exact absurd ⟨reply, at_⟩ running

theorem sound_inductive (clients : Clients Call) (files : Files)
    (serving : clients.serves me = true)
    : (machineFrom clients.world files).Inductive (clients.steps me) (clients.Sound me) where
  start s initial := by
    obtain rfl : s = State.startWith clients.world files := initial
    refine ⟨serving, ⟨id, clients.sized⟩, nofun, nofun, fun call => ?_⟩
    cases uploads : clients.upload call with
    | some data =>
        simp [At, State.startWith, State.new, world, request_upload uploads, Request.begin]
    | none => simp [At, State.startWith, State.new, world, request_fetch uploads, Request.begin]
  keeps s label s' sound allowed taken := sound.effect allowed (step_effect taken)

end Progress

end Clients

end GoREgo.Proxy
