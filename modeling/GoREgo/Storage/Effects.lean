import GoREgo.Storage.Proxy

/-! What single events of the local store and of an upload do, said once for all later
invariants.
-/

namespace GoREgo

open Lib

namespace LocalStore

variable {digest : Digest} {files files' : Files} {outcome : Outcome}

/-- A copy ends well exactly at `io.EOF` with the digest's number of bytes. Any other end
leaves an error and the temporary file to the deferred removal.
-/
theorem Put.endCopy_spec {put put' : Put} {err : IoError}
    (ended : put.endCopy digest err = some put')
    : ∃ written, put = .copy written
      ∧ ((err = .eof ∧ (written.length : Int) = digest.sizeBytes ∧ put' = .close written)
        ∨ ((err = .eof → (written.length : Int) ≠ digest.sizeBytes)
          ∧ ∃ failure, put' = .deferred (some written) (some failure))) := by
  unfold Put.endCopy at ended
  split at ended
  next written =>
    split at ended
    next same =>
      obtain rfl := Option.some.inj ended
      exact ⟨written, rfl, Or.inl ⟨rfl, same, rfl⟩⟩
    next differs =>
      obtain rfl := Option.some.inj ended
      exact ⟨written, rfl, Or.inr ⟨fun _ => differs, _, rfl⟩⟩
  next written notEof =>
    obtain rfl := Option.some.inj ended
    exact ⟨written, rfl, Or.inr ⟨fun same => absurd same notEof, _, rfl⟩⟩
  next => cases ended

theorem Put.endCopy_isSome (digest : Digest) (written : Bytes) (err : IoError)
    : ((Put.copy written).endCopy digest err).isSome = true := by
  cases err with
  | eof =>
      simp only [Put.endCopy]
      split
      next => rfl
      next => rfl
  | _ => rfl

theorem Put.endCopy_not_stored {put put' : Put} {err : IoError}
    (ended : put.endCopy digest err = some put')
    : put'.stored = false := by
  obtain ⟨written, -, ⟨-, -, rfl⟩ | ⟨-, failure, rfl⟩⟩ := Put.endCopy_spec ended
  · rfl
  · rfl

/-- A filesystem call of `Put` is the rename that brings the blob to its path, or leaves the
blobs alone. A stored blob stays stored unless the final `Chmod` fails.
-/
theorem Put.disk_cases {put put' : Put}
    (taken : put.disk digest files outcome = some (files', put'))
    : (∃ written, put = .rename written ∧ outcome = .ok ∧ put' = .chmod
        ∧ files' = Function.update files digest.hash (some written))
      ∨ (files' = files
        ∧ (put'.stored = true → put.stored = true)
        ∧ (put.stored = true
          → put'.stored = true ∨ (put = .chmod ∧ ∃ err, outcome = .fail err))) := by
  cases put with
  | rename written =>
      cases outcome with
      | ok =>
          obtain ⟨rfl, rfl⟩ := Prod.mk.inj (Option.some.inj taken)
          exact Or.inl ⟨written, rfl, rfl, rfl, rfl⟩
      | fail err =>
          obtain ⟨rfl, rfl⟩ := Prod.mk.inj (Option.some.inj taken)
          exact Or.inr ⟨rfl, nofun, nofun⟩
  | _ =>
      right
      cases outcome <;> simp_all [Put.disk]
      all_goals
        obtain ⟨rfl, rfl⟩ := taken
        simp [Put.stored]

/-- A filesystem call of `PutFile` is the rename that brings the blob to its path, or leaves
the blobs alone. It counts as stored from then on, or from finding the blob there.
-/
theorem PutFile.disk_cases {file : Bytes} {call call' : PutFile}
    (taken : call.disk digest file files outcome = some (files', call'))
    : (∃ written, call = .rename written ∧ call' = .deferred none none
        ∧ files' = Function.update files digest.hash (some written))
      ∨ (files' = files ∧ (call.stored = true → call'.stored = true)) := by
  cases call with
  | rename written =>
      cases outcome with
      | ok =>
          obtain ⟨rfl, rfl⟩ := Prod.mk.inj (Option.some.inj taken)
          exact Or.inl ⟨written, rfl, rfl, rfl⟩
      | fail err =>
          obtain ⟨rfl, rfl⟩ := Prod.mk.inj (Option.some.inj taken)
          exact Or.inr ⟨rfl, nofun⟩
  | stat =>
      right
      cases outcome with
      | ok =>
          simp only [PutFile.disk] at taken
          split at taken
          all_goals
            obtain ⟨rfl, rfl⟩ := Prod.mk.inj (Option.some.inj taken)
            exact ⟨rfl, nofun⟩
      | fail err =>
          obtain ⟨rfl, rfl⟩ := Prod.mk.inj (Option.some.inj taken)
          exact ⟨rfl, nofun⟩
  | copy written =>
      right
      cases outcome with
      | ok =>
          simp only [PutFile.disk] at taken
          split at taken
          next =>
            obtain ⟨rfl, rfl⟩ := Prod.mk.inj (Option.some.inj taken)
            exact ⟨rfl, nofun⟩
          next => cases taken
      | fail err =>
          obtain ⟨rfl, rfl⟩ := Prod.mk.inj (Option.some.inj taken)
          exact ⟨rfl, nofun⟩
  | _ =>
      right
      cases outcome <;> simp_all [PutFile.disk]
      all_goals
        obtain ⟨rfl, rfl⟩ := taken
        simp [PutFile.stored]

end LocalStore

namespace Proxy

open LocalStore

theorem Read.after_data {bytes rest rest' : Bytes}
    (read : (Read.data bytes).after rest = some rest')
    : rest = bytes ++ rest' := by
  simp only [Read.after] at read
  split at read
  next here =>
    obtain rfl := Option.some.inj read
    obtain ⟨tail, rfl⟩ := List.isPrefixOf_iff_prefix.mp here
    simp
  next => cases read

/-- An error uses up nothing, and `io.EOF` comes when nothing is left. -/
theorem Read.after_error {err : IoError} {rest rest' : Bytes}
    (read : (Read.error err).after rest = some rest')
    : rest' = rest ∧ (err = .eof → rest = []) := by
  cases err with
  | eof =>
      simp only [Read.after] at read
      split at read
      next empty => exact ⟨(Option.some.inj read).symm, fun _ => List.isEmpty_iff.mp empty⟩
      next => cases read
  | _ => exact ⟨(Option.some.inj read).symm, nofun⟩

theorem Tiers.holds_commit {tiers : Tiers} {digest other : Digest} {content : Bytes}
    (held : tiers.holds other = true)
    : (tiers.commit digest content).holds other = true := by
  unfold Tiers.holds Tiers.commit at *
  by_cases same : other = digest
  · subst same
    simp
  · simpa [same] using held

namespace Upload

inductive Effect (digest : Digest) (tiers : Tiers) (u : Upload)
    : Event → Tiers → Upload → Prop
  | reads {written bytes} (copying : u.localPut = .copy written) (idle : u.pipe.write = none)
    (something : bytes ≠ [])
    : Effect digest tiers u (.source (.data bytes)) tiers
        { u with pipe := { u.pipe with write := some ⟨[], bytes⟩ } }
  | sourceEnds {written err next} (copying : u.localPut = .copy written)
    (idle : u.pipe.write = none)
    (ends : (Put.copy written).endCopy digest err = some next)
    : Effect digest tiers u (.source (.error err)) tiers { u with localPut := next }
  | copies {written} (copying : u.localPut = .copy written) (busy : u.pipe.write.isSome)
    (all : u.pipe.rest = [])
    : Effect digest tiers u .teeReturn tiers
        { u with
          localPut := .copy (written ++ u.pipe.sent)
          pipe := { u.pipe with write := none } }
  | teeFails {written next} (copying : u.localPut = .copy written)
    (busy : u.pipe.write.isSome)
    (shut : u.pipe.isClosed = true) (waiting : u.pipe.rest ≠ [])
    (ends
      : (Put.copy (written ++ u.pipe.sent)).endCopy digest u.pipe.writeCloseError = some next)
    : Effect digest tiers u .teeReturn tiers
        { u with localPut := next, pipe := { u.pipe with write := none } }
  | writes {outcome files next} (idle : u.pipe.write = none)
    (taken : u.localPut.disk digest tiers.files outcome = some (files, next))
    : Effect digest tiers u (.disk outcome) { tiers with files } { u with localPut := next }
  | closes {temp err} (returned : u.localPut = .returned temp err)
    (first : u.closed = false)
    : Effect digest tiers u .closeWriter tiers
        { u with pipe := u.pipe.closeWrite (err.map .other), closed := true }
  | remoteReads {count chunk pipe} (running : u.remote = none)
    (taken : u.pipe.read count = some (chunk, pipe))
    : Effect digest tiers u (.remoteRead count) tiers
        { u with received := u.received ++ chunk, pipe }
  | remoteSees {err} (running : u.remote = none) (ended : u.pipe.readEnd = some err)
    : Effect digest tiers u .remoteEnd tiers { u with seen := some err }
  | commits (running : u.remote = none) (seen : u.seen = some .eof)
    : Effect digest tiers u .commit (tiers.commit digest u.received) u
  | remoteReturns {err} (running : u.remote = none)
    : Effect digest tiers u (.remoteReturn err) tiers
        { u with remote := some err, pipe := u.pipe.closeRead err }

variable {digest : Digest} {tiers tiers' : Tiers} {u u' : Upload} {event : Event}

theorem source_effect {read : Read} (taken : u.source digest read = some u')
    : Effect digest tiers u (.source read) tiers u' := by
  unfold source at taken
  split at taken
  next written bytes copying idle =>
    split at taken
    next => cases taken
    next something =>
      obtain ⟨pipe, begun, rfl⟩ := Option.map_eq_some_iff.mp taken
      obtain ⟨-, rfl⟩ := Pipe.beginWrite_spec begun
      exact .reads copying idle (fun empty => something (by rw [empty]; rfl))
  next written err copying idle =>
    obtain ⟨next, ends, rfl⟩ := Option.map_eq_some_iff.mp taken
    exact .sourceEnds copying idle ends
  next => cases taken

theorem teeReturn_effect (taken : u.teeReturn digest = some u')
    : Effect digest tiers u .teeReturn tiers u' := by
  unfold teeReturn at taken
  split at taken
  next written data pipe copying ended =>
    obtain rfl := Option.some.inj taken
    obtain ⟨busy, rfl, rfl, whole | ⟨failed, -⟩⟩ := Pipe.endWrite_spec ended
    · exact .copies copying busy whole.2
    · cases failed
  next written data err pipe copying ended =>
    obtain ⟨next, ends, rfl⟩ := Option.map_eq_some_iff.mp taken
    obtain ⟨busy, rfl, rfl, ⟨whole, -⟩ | ⟨failed, shut, waiting⟩⟩ := Pipe.endWrite_spec ended
    · cases whole
    · rw [Option.some.inj failed] at ends
      exact .teeFails copying busy shut waiting ends
  next => cases taken

theorem step_effect (taken : u.step digest tiers event = some (tiers', u'))
    : Effect digest tiers u event tiers' u' := by
  cases event with
  | source read =>
      obtain ⟨next, read_, same⟩ := Option.map_eq_some_iff.mp taken
      obtain ⟨rfl, rfl⟩ := Prod.mk.inj same
      exact source_effect read_
  | teeReturn =>
      obtain ⟨next, returned, same⟩ := Option.map_eq_some_iff.mp taken
      obtain ⟨rfl, rfl⟩ := Prod.mk.inj same
      exact teeReturn_effect returned
  | disk outcome =>
      simp only [step] at taken
      split at taken
      next => cases taken
      next idle =>
        obtain ⟨next, called, same⟩ := Option.map_eq_some_iff.mp taken
        obtain ⟨rfl, rfl⟩ := Prod.mk.inj same
        exact .writes (Option.not_isSome_iff_eq_none.mp idle) called
  | closeWriter =>
      simp only [step] at taken
      split at taken
      next temp err returned first =>
        obtain ⟨rfl, rfl⟩ := Prod.mk.inj (Option.some.inj taken)
        exact .closes returned first
      next => cases taken
  | remoteRead count =>
      simp only [step] at taken
      split at taken
      next => cases taken
      next running =>
        obtain ⟨next, read, same⟩ := Option.map_eq_some_iff.mp taken
        obtain ⟨rfl, rfl⟩ := Prod.mk.inj same
        exact .remoteReads (Option.not_isSome_iff_eq_none.mp running) read
  | remoteEnd =>
      simp only [step] at taken
      split at taken
      next => cases taken
      next running =>
        obtain ⟨err, ended, same⟩ := Option.map_eq_some_iff.mp taken
        obtain ⟨rfl, rfl⟩ := Prod.mk.inj same
        exact .remoteSees (Option.not_isSome_iff_eq_none.mp running) ended
  | commit =>
      simp only [step] at taken
      split at taken
      next ready =>
        obtain ⟨rfl, rfl⟩ := Prod.mk.inj (Option.some.inj taken)
        rw [Bool.and_eq_true, Option.isNone_iff_eq_none, beq_iff_eq] at ready
        exact .commits ready.1 ready.2
      next => cases taken
  | remoteReturn err =>
      simp only [step] at taken
      split at taken
      next => cases taken
      next running =>
        obtain ⟨rfl, rfl⟩ := Prod.mk.inj (Option.some.inj taken)
        exact .remoteReturns (Option.not_isSome_iff_eq_none.mp running)

/-- The tee returns once everything was taken or the remote `Put` has closed the pipe. -/
theorem teeReturn_isSome (digest : Digest) {u : Upload} {written : Bytes}
    (copying : u.localPut = .copy written) (busy : u.pipe.write.isSome = true)
    (ready : u.pipe.rest = [] ∨ u.pipe.isClosed = true)
    : (u.teeReturn digest).isSome = true := by
  obtain ⟨⟨data, err, pipe⟩, ended⟩ :=
    Option.isSome_iff_exists.mp (Pipe.endWrite_isSome busy ready)
  cases err with
  | none => simp [teeReturn, copying, ended]
  | some err =>
      simp [teeReturn, copying, ended, Put.endCopy_isSome digest (written ++ data) err]

theorem source_isSome (digest : Digest) {u : Upload} {written : Bytes}
    (copying : u.localPut = .copy written) (idle : u.pipe.write = none) (read : Read)
    (something : read ≠ .data [])
    : (u.source digest read).isSome = true := by
  cases read with
  | data bytes =>
      have nonempty : bytes ≠ [] := fun empty => something (by rw [empty])
      simp [source, copying, idle, nonempty, Pipe.beginWrite]
  | error err => simp [source, copying, idle, Put.endCopy_isSome digest written err]

theorem Effect.tiers_cases (effect : Effect digest tiers u event tiers' u')
    : tiers' = tiers
      ∨ (∃ written, u.localPut = .rename written
        ∧ tiers'
          = { tiers with files := Function.update tiers.files digest.hash (some written) })
      ∨ (u.seen = some .eof ∧ tiers' = tiers.commit digest u.received) := by
  cases effect with
  | writes idle taken =>
      rcases Put.disk_cases taken with ⟨written, moving, -, -, rfl⟩ | ⟨rfl, -, -⟩
      · exact Or.inr (Or.inl ⟨written, moving, rfl⟩)
      · exact Or.inl rfl
  | commits running seen => exact Or.inr (Or.inr ⟨seen, rfl⟩)
  | _ => exact Or.inl rfl

theorem Effect.holds {other : Digest} (effect : Effect digest tiers u event tiers' u')
    (held : tiers.holds other = true)
    : tiers'.holds other = true := by
  rcases effect.tiers_cases with rfl | ⟨written, -, rfl⟩ | ⟨-, rfl⟩
  · exact held
  · exact held
  · exact Tiers.holds_commit held

theorem result_spec {err : Option IoError} (ended : u.result = some err)
    : ∃ temp localErr remoteErr,
        u.localPut = .returned temp localErr
        ∧ u.remote = some remoteErr
        ∧ ((localErr = none ∧ err = remoteErr)
          ∨ ∃ failure, localErr = some failure ∧ err = some (.other failure)) := by
  unfold result at ended
  split at ended
  next temp failure remoteErr _ returned finished =>
    exact ⟨temp, _, _, returned, finished, Or.inr ⟨failure, rfl, (Option.some.inj ended).symm⟩⟩
  next temp remoteErr _ returned finished =>
    exact ⟨temp, _, _, returned, finished, Or.inl ⟨rfl, (Option.some.inj ended).symm⟩⟩
  next => cases ended

end Upload

namespace FileUpload

inductive Effect (limit : Nat) (digest : Digest) (file : Bytes) (tiers : Tiers)
    : FileUpload → Event → Tiers → FileUpload → Prop
  | disk {call call' outcome files}
    (taken : call.disk digest file tiers.files outcome = some (files, call'))
    : Effect limit digest file tiers (.store call) (.disk outcome) { tiers with files }
        (.store call')
  | copies {written count}
    : Effect limit digest file tiers (.store (.copy written)) (.copyChunk count) tiers
        (.store (.copy (file.take (written.length + count))))
  | refused {temp err}
    : Effect limit digest file tiers (.store (.returned temp (some err))) .stored tiers
        (.returned (some (.other err)))
  | stored {temp}
    : Effect limit digest file tiers (.store (.returned temp none)) .stored tiers (.openFile 1)
  | opens {attempt}
    : Effect limit digest file tiers (.openFile attempt) (.disk .ok) tiers (.send attempt)
  | openFails {attempt err}
    : Effect limit digest file tiers (.openFile attempt) (.disk (.fail err)) tiers
        (.returned (some (.other err)))
  | commits {attempt}
    : Effect limit digest file tiers (.send attempt) .commit (tiers.commit digest file)
        (.send attempt)
  | succeeds {attempt}
    : Effect limit digest file tiers (.send attempt) (.remoteReturn none) tiers
        (.returned none)
  | fails {attempt err}
    : Effect limit digest file tiers (.send attempt) (.remoteReturn (some err)) tiers
        (.failed attempt err)
  | cancelled {attempt err cause}
    : Effect limit digest file tiers (.failed attempt err) (.checkContext (some cause)) tiers
        (.returned (some (.other cause)))
  | retries {attempt err} (more : attempt < limit)
    : Effect limit digest file tiers (.failed attempt err) (.checkContext none) tiers
        (.openFile (attempt + 1))
  | givesUp {attempt err} (last : limit ≤ attempt)
    : Effect limit digest file tiers (.failed attempt err) (.checkContext none) tiers
        (.returned (some err))

theorem step_effect {limit : Nat} {digest : Digest} {file : Bytes} {tiers tiers' : Tiers}
    {impl impl' : FileUpload} {event : Event}
    (taken : impl.step limit digest file tiers event = some (tiers', impl'))
    : Effect limit digest file tiers impl event tiers' impl' := by
  unfold step at taken
  split at taken
  next call outcome =>
    obtain ⟨⟨files, call'⟩, called, same⟩ := Option.map_eq_some_iff.mp taken
    obtain ⟨rfl, rfl⟩ := Prod.mk.inj same
    exact .disk called
  next call count =>
    obtain ⟨call', copied, same⟩ := Option.map_eq_some_iff.mp taken
    obtain ⟨rfl, rfl⟩ := Prod.mk.inj same
    cases call with
    | copy written =>
        obtain rfl := Option.some.inj copied
        exact .copies
    | _ => cases copied
  -- The other events have one result each, except the check of the context.
  all_goals try
    obtain ⟨rfl, rfl⟩ := Prod.mk.inj (Option.some.inj taken)
    constructor
  next attempt err =>
    split at taken
    next more =>
      obtain ⟨rfl, rfl⟩ := Prod.mk.inj (Option.some.inj taken)
      exact .retries more
    next last =>
      obtain ⟨rfl, rfl⟩ := Prod.mk.inj (Option.some.inj taken)
      exact .givesUp (Nat.not_lt.mp last)
  next => cases taken

end FileUpload

namespace Fetch

inductive Effect (digest : Digest) (tiers : Tiers) : Fetch → Event → Tiers → Fetch → Prop
  | gets {content} (found : tiers.remote digest = some content)
    : Effect digest tiers .get (.remoteGet .ok) tiers (.fill content .mkdirAll)
  | getFails {err}
    : Effect digest tiers .get (.remoteGet (.fail err)) tiers (.returned (some (.other err)))
  | copies {rest rest' localPut next read} (left : read.after rest = some rest')
    (copied : copy digest localPut read = some next)
    : Effect digest tiers (.fill rest localPut) (.source read) tiers (.fill rest' next)
  | writes {rest localPut next outcome files}
    (taken : localPut.disk digest tiers.files outcome = some (files, next))
    : Effect digest tiers (.fill rest localPut) (.disk outcome) { tiers with files }
        (.fill rest next)
  | ends {rest temp err}
    : Effect digest tiers (.fill rest (.returned temp err)) .stored tiers
        (.returned (err.map .other))

theorem step_effect {digest : Digest} {tiers tiers' : Tiers} {fetch fetch' : Fetch}
    {event : Event} (taken : fetch.step digest tiers event = some (tiers', fetch'))
    : Effect digest tiers fetch event tiers' fetch' := by
  unfold step at taken
  split at taken
  next =>
    obtain ⟨content, found, same⟩ := Option.map_eq_some_iff.mp taken
    obtain ⟨rfl, rfl⟩ := Prod.mk.inj same
    exact .gets found
  next =>
    obtain ⟨rfl, rfl⟩ := Prod.mk.inj (Option.some.inj taken)
    exact .getFails
  next =>
    obtain ⟨rest', left, later⟩ := Option.bind_eq_some_iff.mp taken
    obtain ⟨next, copied, same⟩ := Option.map_eq_some_iff.mp later
    obtain ⟨rfl, rfl⟩ := Prod.mk.inj same
    exact .copies left copied
  next =>
    obtain ⟨⟨files, next⟩, called, same⟩ := Option.map_eq_some_iff.mp taken
    obtain ⟨rfl, rfl⟩ := Prod.mk.inj same
    exact .writes called
  next =>
    obtain ⟨rfl, rfl⟩ := Prod.mk.inj (Option.some.inj taken)
    exact .ends
  next => cases taken

end Fetch

namespace Flight

/-- The events of a flight by the function that runs. A remote `Put` that returns nil leaves
the blob with the remote tier.
-/
inductive Effect (limit : Nat) (request : Request) (tiers : Tiers)
    : Flight → Event → Tiers → Flight → Prop
  | put {rest rest' u u' event tiers'} (left : remaining rest event = some rest')
    (effect : Upload.Effect request.digest tiers u event tiers' u')
    (honest : event = .remoteReturn none → tiers.holds request.digest = true)
    : Effect limit request tiers (.put rest u) (.put event) tiers' (.put rest' u')
  | putFile {impl impl' event tiers'}
    (effect
      : FileUpload.Effect limit request.digest request.file tiers impl event tiers' impl')
    (honest : event = .remoteReturn none → tiers.holds request.digest = true)
    : Effect limit request tiers (.putFile impl) (.putFile event) tiers' (.putFile impl')
  | get {fetch fetch' event tiers'}
    (taken : fetch.step request.digest tiers event = some (tiers', fetch'))
    : Effect limit request tiers (.get fetch) (.get event) tiers' (.get fetch')

theorem step_effect {limit : Nat} {request : Request} {tiers tiers' : Tiers}
    {flight flight' : Flight} {event : Event}
    (taken : flight.step limit request tiers event = some (tiers', flight'))
    : Effect limit request tiers flight event tiers' flight' := by
  unfold step at taken
  split at taken
  next => cases taken
  next allowed =>
    have honest : event.succeeds = true → tiers.holds request.digest = true := by
      intro success
      by_contra missing
      exact allowed (by simp [success, missing])
    unfold advance at taken
    split at taken
    next rest u event =>
      obtain ⟨rest', left, later⟩ := Option.bind_eq_some_iff.mp taken
      obtain ⟨⟨after, u'⟩, stepped, same⟩ := Option.map_eq_some_iff.mp later
      obtain ⟨rfl, rfl⟩ := Prod.mk.inj same
      refine .put left (Upload.step_effect stepped) ?_
      rintro rfl
      exact honest rfl
    next impl event =>
      obtain ⟨⟨after, impl'⟩, stepped, same⟩ := Option.map_eq_some_iff.mp taken
      obtain ⟨rfl, rfl⟩ := Prod.mk.inj same
      refine .putFile (FileUpload.step_effect stepped) ?_
      rintro rfl
      exact honest rfl
    next fetch event =>
      obtain ⟨⟨after, fetch'⟩, stepped, same⟩ := Option.map_eq_some_iff.mp taken
      obtain ⟨rfl, rfl⟩ := Prod.mk.inj same
      exact .get stepped
    next => cases taken

theorem result_spec {flight : Flight} {err : Option IoError} (ended : flight.result = some err)
    : (∃ rest u, flight = .put rest u ∧ u.result = some err)
      ∨ flight = .putFile (.returned err)
      ∨ flight = .get (.returned err) := by
  unfold result at ended
  split at ended
  next rest u => exact Or.inl ⟨rest, u, rfl, ended⟩
  next =>
    obtain rfl := Option.some.inj ended
    exact Or.inr (Or.inl rfl)
  next =>
    obtain rfl := Option.some.inj ended
    exact Or.inr (Or.inr rfl)
  next => cases ended

end Flight

end Proxy

end GoREgo
