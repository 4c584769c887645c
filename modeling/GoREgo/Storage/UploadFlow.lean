import GoREgo.Storage.Effects

/-! Where the bytes of a write-through upload are: in the source, in the pipe, in the
temporary file and with the remote `Put`.
-/

namespace GoREgo.Proxy

open Lib LocalStore

/-- What the remote `Put` has read once the local copy has ended well: as many bytes of the
data as the digest says. They are all of the data, unless the remote `Put` returned `io.EOF`
as its error, which the tee gives the local copy as the end of the data.
-/
structure Upload.Complete (digest : Digest) (data : Bytes) (u : Upload) : Prop where
  initial : u.received <+: data
  sized : (u.received.length : Int) = digest.sizeBytes
  whole : u.received = data ∨ u.remote = some (some .eof)

theorem Upload.Complete.same {digest : Digest} {data : Bytes} {u u' : Upload}
    (complete : u.Complete digest data) (received : u'.received = u.received)
    (remote : ∀ err, u.remote = some err → u'.remote = some err)
    : u'.Complete digest data where
  initial := received ▸ complete.initial
  sized := received ▸ complete.sized
  whole := by
    rw [received]
    exact complete.whole.imp_right (remote _)

/-- How the bytes of `data` are spread while `rest` is still in the source: the remote `Put`
has read what the local copy has, and the part of the write in progress that was taken.
-/
def Upload.Carried (digest : Digest) (data rest : Bytes) (u : Upload) : Prop :=
  match u.localPut with
  | .mkdirAll => u.pipe.write = none ∧ u.received = [] ∧ rest = data
  | .createTemp => u.pipe.write = none ∧ u.received = [] ∧ rest = data
  | .copy written =>
      u.received = written ++ u.pipe.sent ∧ data = u.received ++ u.pipe.rest ++ rest
  | .close written => u.pipe.write = none ∧ u.received = written ∧ u.Complete digest data
  | .rename written => u.pipe.write = none ∧ u.received = written ∧ u.Complete digest data
  | .chmod => u.pipe.write = none ∧ u.Complete digest data
  | .deferred _ err => u.pipe.write = none ∧ (err = none → u.Complete digest data)
  | .returned _ err => u.pipe.write = none ∧ (err = none → u.Complete digest data)

theorem Upload.Carried.same {digest : Digest} {data rest : Bytes} {u u' : Upload}
    (carried : u.Carried digest data rest) (localPut : u'.localPut = u.localPut)
    (write : u'.pipe.write = u.pipe.write) (received : u'.received = u.received)
    (remote : ∀ err, u.remote = some err → u'.remote = some err)
    : u'.Carried digest data rest := by
  unfold Upload.Carried at *
  rw [localPut, received, write, Pipe.sent_congr write, Pipe.rest_congr write]
  split at carried
  next => exact carried
  next => exact carried
  next => exact carried
  next => exact ⟨carried.1, carried.2.1, carried.2.2.same received remote⟩
  next => exact ⟨carried.1, carried.2.1, carried.2.2.same received remote⟩
  next => exact ⟨carried.1, carried.2.same received remote⟩
  next => exact ⟨carried.1, fun nil => (carried.2 nil).same received remote⟩
  next => exact ⟨carried.1, fun nil => (carried.2 nil).same received remote⟩

/-- The flow of an upload: where the bytes are, how the reader was closed, and that the
remote `Put` is told `io.EOF` only after the local `Put` has returned nil.
-/
structure Upload.Flow (digest : Digest) (data rest : Bytes) (u : Upload) : Prop where
  carried : u.Carried digest data rest
  reader : u.pipe.rerr = u.remote.map (fun err => err.getD .closedPipe)
  shut : u.pipe.werr = some .eof → ∃ temp, u.localPut = .returned temp none
  seen : u.seen = some .eof → ∃ temp, u.localPut = .returned temp none

theorem Upload.flow_new (digest : Digest) (data : Bytes)
    : ({} : Upload).Flow digest data data where
  carried := ⟨rfl, rfl, rfl⟩
  reader := rfl
  shut := nofun
  seen := nofun

namespace Upload.Flow

variable {digest : Digest} {data rest rest' : Bytes} {tiers tiers' : Tiers} {u u' : Upload}

variable {written : Bytes}

theorem copied (flow : u.Flow digest data rest) (copying : u.localPut = .copy written)
    : u.received = written ++ u.pipe.sent ∧ data = u.received ++ u.pipe.rest ++ rest := by
  simpa only [Carried, copying] using flow.carried

theorem remote_eof (flow : u.Flow digest data rest) (shut : u.pipe.rerr = some .eof)
    : u.remote = some (some .eof) := by
  obtain ⟨err, returned, same⟩ := Option.map_eq_some_iff.mp (flow.reader.symm.trans shut)
  cases err with
  | none => cases same
  | some err =>
      obtain rfl : err = .eof := same
      exact returned

theorem renamed (flow : u.Flow digest data rest) (moving : u.localPut = .rename written)
    : u.received = written ∧ u.Complete digest data := by
  have carried := flow.carried
  simp only [Carried, moving] at carried
  exact carried.2

theorem returned (flow : u.Flow digest data rest) {temp : Option Bytes}
    (returned : u.localPut = .returned temp none)
    : u.Complete digest data := by
  have carried := flow.carried
  simp only [Carried, returned] at carried
  exact carried.2 trivial

theorem idle (flow : u.Flow digest data rest) (away : ∀ written, u.localPut ≠ .copy written)
    : u.pipe.write = none := by
  have carried := flow.carried
  unfold Carried at carried
  split at carried
  next => exact carried.1
  next => exact carried.1
  next written copying => exact absurd copying (away written)
  all_goals exact carried.1

theorem copying_open (flow : u.Flow digest data rest) (copying : u.localPut = .copy written)
    : u.pipe.werr ≠ some .eof ∧ u.seen ≠ some .eof := by
  constructor
  · intro shut
    obtain ⟨temp, returned⟩ := flow.shut shut
    cases copying.symm.trans returned
  · intro seen
    obtain ⟨temp, returned⟩ := flow.seen seen
    cases copying.symm.trans returned

/-- The end of the copy keeps the flow. An end with the size in the digest is the end of the
data or the `io.EOF` of the remote `Put`.
-/
theorem endCopy (flow : u.Flow digest data rest) {copied : Bytes} {err : IoError} {next : Put}
    {pipe : Pipe UInt8 GoError} (copying : u.localPut = .copy written) (idle : pipe.write = none)
    (rerr : pipe.rerr = u.pipe.rerr) (werr : pipe.werr = u.pipe.werr) (taken : u.received = copied)
    (initial : copied <+: data) (whole : err = .eof → copied = data ∨ u.remote = some (some .eof))
    (ends : (Put.copy copied).endCopy digest err = some next)
    : ({ u with localPut := next, pipe } : Upload).Flow digest data rest' := by
  obtain ⟨notShut, notSeen⟩ := flow.copying_open copying
  refine ⟨?_, rerr.trans flow.reader, fun shut => absurd (werr ▸ shut) notShut,
    fun seen => absurd seen notSeen⟩
  obtain ⟨_, same, ⟨rfl, sized, rfl⟩ | ⟨-, failure, rfl⟩⟩ := Put.endCopy_spec ends
  · obtain rfl := Put.copy.inj same
    exact ⟨idle, taken, taken ▸ initial, taken ▸ sized, taken ▸ whole rfl⟩
  · exact ⟨idle, nofun⟩

theorem disk (flow : u.Flow digest data rest) {outcome : Outcome} {files files' : Files}
    {next : Put} (idle : u.pipe.write = none)
    (taken : u.localPut.disk digest files outcome = some (files', next))
    : ({ u with localPut := next } : Upload).Flow digest data rest := by
  have working : ∀ temp err, u.localPut ≠ .returned temp err := by
    intro temp err returned
    rw [returned] at taken
    cases taken
  refine ⟨?_, flow.reader, ?_, ?_⟩
  · have carried := flow.carried
    unfold Carried at carried
    cases at_ : u.localPut <;> rw [at_] at taken carried <;> cases outcome
    case returned.ok => cases taken
    case returned.fail => cases taken
    case copy.ok => cases taken
    all_goals
      obtain ⟨-, rfl⟩ := Prod.mk.inj (Option.some.inj taken)
    case mkdirAll.ok => exact carried
    case createTemp.ok =>
      obtain ⟨-, unread, rfl⟩ := carried
      simp [Carried, Pipe.sent_idle idle, Pipe.rest_idle idle, unread]
    case close.ok => exact ⟨idle, carried.2.1, carried.2.2.same rfl (fun _ same => same)⟩
    case rename.ok => exact ⟨idle, carried.2.2.same rfl (fun _ same => same)⟩
    case chmod.ok => exact ⟨idle, fun _ => carried.2.same rfl (fun _ same => same)⟩
    case deferred.ok => exact ⟨idle, fun nil => (carried.2 nil).same rfl (fun _ same => same)⟩
    case deferred.fail => exact ⟨idle, fun nil => (carried.2 nil).same rfl (fun _ same => same)⟩
    all_goals exact ⟨idle, nofun⟩
  · intro shut
    obtain ⟨temp, returned⟩ := flow.shut shut
    exact absurd returned (working temp none)
  · intro seen
    obtain ⟨temp, returned⟩ := flow.seen seen
    exact absurd returned (working temp none)

theorem effect (flow : u.Flow digest data rest) {event : Event}
    (left : Flight.remaining rest event = some rest')
    (effect : Effect digest tiers u event tiers' u')
    : u'.Flow digest data rest' := by
  have unread (other : ∀ read, event ≠ .source read) : rest' = rest := by
    cases event with
    | source read => exact absurd rfl (other read)
    | _ => exact (Option.some.inj left).symm
  cases effect with
  | @reads written bytes copying idle something =>
      obtain ⟨taken, spread⟩ := flow.copied copying
      refine ⟨?_, flow.reader, flow.shut, flow.seen⟩
      rw [Pipe.sent_idle idle, List.append_nil] at taken
      rw [Pipe.rest_idle idle, List.append_nil, Read.after_data left,
        ← List.append_assoc] at spread
      simp only [Carried, copying]
      exact ⟨by simpa [Pipe.sent] using taken, spread⟩
  | @sourceEnds written err next copying idle ends =>
      obtain ⟨taken, spread⟩ := flow.copied copying
      obtain ⟨rfl, atEnd⟩ := Read.after_error left
      rw [Pipe.sent_idle idle, List.append_nil] at taken
      rw [Pipe.rest_idle idle, List.append_nil] at spread
      refine flow.endCopy copying idle rfl rfl taken ⟨rest', taken ▸ spread.symm⟩ ?_ ends
      intro isEof
      rw [spread, atEnd isEof, List.append_nil, taken]
      exact Or.inl rfl
  | @copies written copying busy all =>
      obtain rfl := unread (by simp)
      obtain ⟨taken, spread⟩ := flow.copied copying
      obtain ⟨notShut, notSeen⟩ := flow.copying_open copying
      refine ⟨?_, flow.reader, fun shut => absurd shut notShut,
        fun seen => absurd seen notSeen⟩
      rw [all] at spread
      exact ⟨by simpa [Pipe.sent] using taken, by simpa [Pipe.rest] using spread⟩
  | @teeFails written next copying busy shut waiting ends =>
      obtain ⟨taken, spread⟩ := flow.copied copying
      refine flow.endCopy copying rfl rfl rfl taken ?_ ?_ ends
      · rw [← taken, spread, List.append_assoc]
        exact List.prefix_append ..
      · intro isEof
        exact Or.inr (flow.remote_eof (Pipe.writeCloseError_eof isEof).2)
  | @writes outcome files next idle taken =>
      obtain rfl := unread (by simp)
      exact flow.disk idle taken
  | @closes temp err returned first =>
      obtain rfl := unread (by simp)
      refine ⟨flow.carried.same rfl rfl rfl (fun _ same => same), flow.reader, ?_, flow.seen⟩
      intro shut
      rcases Pipe.closeWrite_werr shut with before | now
      · exact flow.shut before
      · cases err with
        | none => exact ⟨temp, returned⟩
        | some err => cases now
  | @remoteReads count chunk pipe running taken =>
      obtain rfl := unread (by simp)
      obtain ⟨-, busy, waiting, sent, rerr, werr⟩ := Pipe.read_spec taken
      obtain ⟨written, copying⟩ : ∃ written, u.localPut = .copy written := by
        by_contra away
        have idle := flow.idle (fun written copying => away ⟨written, copying⟩)
        rw [idle] at busy
        cases busy
      obtain ⟨before, spread⟩ := flow.copied copying
      refine ⟨?_, rerr.trans flow.reader, fun shut => flow.shut (werr ▸ shut), flow.seen⟩
      simp only [Carried, copying]
      rw [sent, before, List.append_assoc]
      refine ⟨rfl, ?_⟩
      rw [spread, waiting, before]
      simp only [List.append_assoc]
  | @remoteSees err running ended =>
      obtain rfl := unread (by simp)
      refine ⟨flow.carried.same rfl rfl rfl (fun _ same => same), flow.reader, flow.shut, ?_⟩
      intro seen
      rw [Option.some.inj seen] at ended
      exact flow.shut (Pipe.readEnd_eof ended).2
  | @commits running seen =>
      obtain rfl := unread (by simp)
      exact flow
  | @remoteReturns err running =>
      obtain rfl := unread (by simp)
      have readOpen : u.pipe.rerr = none := by
        rw [flow.reader, running]
        rfl
      refine ⟨flow.carried.same rfl rfl rfl ?_, Pipe.closeRead_rerr readOpen, flow.shut,
        flow.seen⟩
      intro earlier returned
      cases running.symm.trans returned

end Upload.Flow

end GoREgo.Proxy
