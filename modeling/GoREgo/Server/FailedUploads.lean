import GoREgo.Server.FailingWrite

/-! A failed upload leaves no blob and no temporary file behind, and `Write` returns an
error, unless the remote `Put` ends early: its `io.EOF` can cut the local copy off at the
digest's size, and once `Put` has returned no one reads what the handler still writes.
-/

namespace GoREgo

open Lib LocalStore Proxy

/-- A running `putImpl` has an event of its own, waits for its source, or has ended. The
remote `Put` may return at any time.
-/
theorem Proxy.Upload.Flow.advances {digest : Digest} {data rest : Bytes} {u : Upload}
    (flow : u.Flow digest data rest) (tiers : Tiers)
    : (∃ event, (∀ read, event ≠ .source read)
        ∧ (u.step digest tiers event).isSome = true)
      ∨ (∃ written, u.localPut = .copy written ∧ u.pipe.write = none)
      ∨ u.result.isSome = true := by
  cases remote : u.remote with
  | none => exact Or.inl ⟨.remoteReturn none, by simp, by simp [Upload.step, remote]⟩
  | some remoteErr =>
      cases at_ : u.localPut with
      | copy written =>
          cases write : u.pipe.write with
          | none => exact Or.inr (Or.inl ⟨written, rfl, rfl⟩)
          | some handoff =>
              have shut : u.pipe.isClosed = true := by
                simp [Pipe.isClosed, flow.reader, remote]
              have returns := Upload.teeReturn_isSome digest at_ (by rw [write]; rfl) (Or.inr shut)
              exact Or.inl ⟨.teeReturn, by simp, by simpa [Upload.step] using returns⟩
      | returned temp err =>
          cases closed : u.closed with
          | false => exact Or.inl ⟨.closeWriter, by simp, by simp [Upload.step, at_, closed]⟩
          | true => cases err <;> simp [Upload.result, closed, at_, remote]
      | _ =>
          have idle : u.pipe.write = none := flow.idle (by simp [at_])
          exact Or.inl ⟨.disk .ok, by simp, by simp [Upload.step, idle, at_, Put.disk]⟩

namespace Server

/-- Both `Write` and its goroutine, if it was started, have ended. -/
def Writer.finished (s : Writer) : Bool :=
  match s.handler, s.store with
  | .returned _, .idle => true
  | .returned _, .returned _ _ => true
  | _, _ => false

/-- The handler is inside `pw.Write` with bytes that no one is left to read, because `Put`
has returned without closing its reader.
-/
def Writer.blocked (s : Writer) : Bool :=
  match s.handler, s.store with
  | .writing _, .returned _ _ => !s.pipe.isClosed && !s.pipe.rest.isEmpty
  | _, _ => false

def Writer.tempFile (s : Writer) : Option Bytes :=
  match s.store with
  | .flying u => u.localPut.temp
  | .returned u _ => u.localPut.temp
  | _ => none

/-- Nothing is left that the goroutines can do; only the client may still cancel. -/
def Writer.Quiet (failure : Option GoError) (s : Writer) : Prop :=
  ∀ label, (∀ err, label ≠ .contextDone err) → s.step failure label = none

/-- A blocked `Write` stays blocked, whatever the client does. -/
theorem Writer.blocked_forever {failure : Option GoError} {s : Writer}
    (blocked : s.blocked = true) (label : Label)
    : s.step failure label = none := by
  unfold Writer.blocked at blocked
  split at blocked
  next finish u err at_ done =>
    simp only [Bool.and_eq_true, Bool.not_eq_true', List.isEmpty_eq_false_iff] at blocked
    cases taken : s.step failure label with
    | none => rfl
    | some s' =>
        cases Writer.step_effect taken with
        | wrote _ all => exact absurd all blocked.2
        | writeFails _ shut => cases blocked.1.symm.trans shut
        | _ => simp_all
  next => cases blocked

namespace Writer.Failing

variable {stream : Stream} {digest : Digest} {tiers : Tiers} {s : Writer}

theorem goroutine_ended (failing : s.Failing stream digest tiers)
    (long : 4 ≤ digest.hash.length) (quiet : s.Quiet stream.failure)
    (readable : s.pipe.isClosed = true ∨ s.pipe.rest ≠ [])
    : s.store = .idle ∨ ∃ u err, s.store = .returned u err := by
  obtain ⟨rest, left, upload⟩ := failing.source
  have found (started : s.store ≠ .idle) : s.resource = some digest := by
    cases found : s.resource with
    | none => exact absurd (failing.fresh found).1 started
    | some named => rw [(failing.known named found).1]
  cases put : s.store with
  | idle => exact Or.inl rfl
  | returned u err => exact Or.inr ⟨u, err, rfl⟩
  | draining =>
      rw [put] at upload
      exact upload.elim
  | checking =>
      have stopped := quiet (.stat .ok) (by simp)
      simp only [step, put, found (by simp [put]), stat, Nat.not_lt.mpr long, if_false]
        at stopped
      split at stopped <;> cases stopped
  | flying u =>
      rw [put] at upload
      have known := found (by simp [put])
      rcases upload.1.advances s.tiers with
        ⟨event, inner, possible⟩ | ⟨written, copying, idle⟩ | ended
      · have stopped := quiet (.upload event) (by simp)
        cases event with
        | source read => exact absurd rfl (inner read)
        | _ => simp_all [step]
      · cases closed : s.pipe.isClosed with
        | true =>
            have stopped := quiet .readEnd (by simp)
            have takes := Upload.source_isSome digest copying idle
              (.error s.pipe.readCloseError) (by simp)
            simp [step, put, known, readEnd, Pipe.readEnd, closed] at stopped
            simp [stopped] at takes
        | false =>
            have waiting := readable.resolve_left (by simp [closed])
            obtain ⟨chunk, pipe, taken, something⟩ := Pipe.read_total closed waiting
            have stopped := quiet (.read 1) (by simp)
            have takes := Upload.source_isSome digest copying idle (.data chunk)
              (by simpa using something)
            simp [step, put, known, read, taken] at stopped
            simp [stopped] at takes
      · have stopped := quiet .putReturn (by simp)
        simp [step, put] at stopped
        simp [stopped] at ended

theorem receives (failing : s.Failing stream digest tiers) (fails : stream.Fails digest tiers)
    (at_ : s.handler = .recv)
    : (s.step stream.failure .recv).isSome = true := by
  obtain ⟨rest, left, -⟩ := failing.source
  simp only [Left, at_] at left
  obtain ⟨first, others, messages, parsed⟩ := fails.named
  simp only [step, Writer.recv]
  split
  next =>
    simp only [andCall, Call.recvEnd, at_, Option.isSome_map]
    cases stream.failure <;> rfl
  next message inbox next =>
    rw [andCall, Option.isSome_map]
    refine Call.recv_isSome at_ (by rw [left.1]) message (fun unnamed => ?_)
    rcases (failing.fresh unnamed).2 with ⟨-, inbox⟩ | ⟨err, deferred | returned⟩
    · obtain ⟨rfl, -⟩ := List.cons.inj (next.symm.trans (inbox.trans messages))
      simp [proxyPut, parsed]
    · cases at_.symm.trans deferred
    · cases at_.symm.trans returned

/-- When nothing is left to do, `Write` and its goroutine have ended, or `Write` is blocked
because the goroutine ended first.
-/
theorem quiet_cases (failing : s.Failing stream digest tiers)
    (fails : stream.Fails digest tiers) (long : 4 ≤ digest.hash.length)
    (quiet : s.Quiet stream.failure)
    : s.finished = true ∨ s.blocked = true := by
  obtain ⟨rest, left, -⟩ := failing.source
  cases at_ : s.handler with
  | recv =>
      have possible := failing.receives fails at_
      simp [quiet .recv (by simp)] at possible
  | writing finish =>
      simp only [Left, at_] at left
      by_cases all : s.pipe.rest = []
      · have stopped := quiet .written (by simp)
        have ends := Pipe.endWrite_isSome left.2.1 (Or.inl all)
        simp [step, at_, andCall, Call.written] at stopped
        simp [stopped] at ends
      · right
        obtain ⟨-, started⟩ := failing.named (by simp [at_]) (by simp [at_])
        rcases failing.goroutine_ended long quiet (Or.inr all) with idle | ⟨u, err, done⟩
        · exact absurd idle started
        · simp [blocked, at_, done, left.1, all]
  | closing => simpa [step, at_] using quiet .closeWriter (by simp)
  | waiting =>
      simp only [Left, at_] at left
      obtain ⟨-, started⟩ := failing.named (by simp [at_]) (by simp [at_])
      have shut : s.pipe.isClosed = true := by rw [left.1]; rfl
      rcases failing.goroutine_ended long quiet (Or.inl shut) with idle | ⟨u, err, done⟩
      · exact absurd idle started
      · have stopped := quiet .receive (by simp)
        cases err <;> simp [step, at_, andCall, Call.receive, proxyPut, done] at stopped
  | replying => exact absurd at_ failing.error.1
  | deferred err => simpa [step, at_] using quiet .close (by simp)
  | returned err =>
      simp only [Left, at_] at left
      have shut : s.pipe.isClosed = true := by rw [Pipe.isClosed, left.2, Bool.true_or]
      left
      rcases failing.goroutine_ended long quiet (Or.inl shut) with idle | ⟨u, err, done⟩
      · simp [finished, at_, idle]
      · simp [finished, at_, done]

theorem finished_error (failing : s.Failing stream digest tiers)
    (finished : s.finished = true)
    : s.tempFile = none ∧ ∃ err, s.handler = .returned (some err) := by
  obtain ⟨rest, -, upload⟩ := failing.source
  have error {err : Option GoError} (at_ : s.handler = .returned err)
      : ∃ err, s.handler = .returned (some err) := by
    cases err with
    | none => exact absurd at_ failing.error.2.2
    | some err => exact ⟨err, at_⟩
  unfold Writer.finished at finished
  split at finished
  next err at_ idle => exact ⟨by simp only [tempFile, idle], error at_⟩
  next err u cause at_ done =>
    rw [done] at upload
    exact ⟨by simpa only [tempFile, done] using upload.1, error at_⟩
  next => cases finished

end Writer.Failing

theorem failing_invariant {stream : Stream} {digest : Digest} {tiers : Tiers}
    (fails : stream.Fails digest tiers)
    : (writeMachine stream tiers).Inductive Writer.spares
        (Writer.Failing stream digest tiers) where
  start s initial := by
    obtain rfl : s = { inbox := stream.messages, tiers } := initial
    exact ⟨rfl, fun _ => ⟨rfl, Or.inl ⟨rfl, rfl⟩⟩, nofun,
      ⟨payload stream.messages, ⟨rfl, rfl, rfl⟩, rfl⟩, nofun, nofun, nofun⟩
  keeps s label s' failing spares taken :=
    failing.effect fails spares (Writer.step_effect taken)

/-- Whatever the order of the steps, an upload that breaks off or has the wrong length never
has a blob in either tier. Once `Write` and its goroutine have ended, no temporary file is
left and `Write` has returned an error; and they do end, unless `Put` returns while `Write`
is still writing to it.
-/
theorem failed_upload_commits_nowhere {stream : Stream} {digest : Digest} {tiers : Tiers}
    {s : Writer} (fails : stream.Fails digest tiers) (long : 4 ≤ digest.hash.length)
    (reach : (writeMachine stream tiers).Reachable Writer.spares s)
    : s.tiers.files digest.hash = none
      ∧ (∀ size, s.tiers.remote ⟨digest.hash, size⟩ = none)
      ∧ (s.finished = true
        → s.tempFile = none ∧ ∃ err, s.handler = .returned (some err))
      ∧ (s.Quiet stream.failure → s.finished = true ∨ s.blocked = true) := by
  have failing := (failing_invariant fails).reachable reach
  refine ⟨?_, ?_, failing.finished_error, failing.quiet_cases fails long⟩
  · rw [failing.tiers]
    exact fails.localMissing
  · rw [failing.tiers]
    exact fails.remoteMissing

def noBlobs : Tiers := ⟨fun _ => none, fun _ => none⟩

def brokenOff : Stream where
  messages := [⟨"uploads/u/blobs/abcd/1", 0, [7], false⟩]
  failure := some (.plain "connection reset")

def breakOff : List Label :=
  [.recv, .stat .ok, .upload (.disk .ok), .upload (.disk .ok), .read 1,
    .upload (.remoteRead 1), .upload .teeReturn, .written, .recv, .close, .readEnd,
    .upload (.disk .ok), .upload .closeWriter, .upload .remoteEnd,
    .upload (.remoteReturn (some (.other (.plain "read failed")))), .putReturn]

/-- The upload that broke off ends with an error and leaves nothing, although all the bytes
of the blob had arrived.
-/
theorem broken_off_commits_nowhere
    : ∃ s, (writeMachine brokenOff noBlobs).Reachable Writer.spares s
        ∧ s.finished = true
        ∧ s.tiers.files "abcd" = none
        ∧ s.tempFile = none
        ∧ ∃ err, s.handler = .returned (some err) := by
  obtain ⟨s, run, finished⟩ := Machine.exists_run_of_execIf
    (writeMachine brokenOff noBlobs) Writer.spares
    { inbox := brokenOff.messages, tiers := noBlobs } breakOff Writer.finished (by decide)
  have fails : brokenOff.Fails ⟨"abcd", 1⟩ noBlobs :=
    ⟨⟨_, _, rfl, by decide⟩, rfl, fun _ => rfl, Or.inl (by decide)⟩
  have reach : (writeMachine brokenOff noBlobs).Reachable Writer.spares s :=
    ⟨_, breakOff, rfl, run⟩
  obtain ⟨missing, -, ended, -⟩ := failed_upload_commits_nowhere fails (by decide) reach
  exact ⟨s, reach, finished, missing, ended finished⟩

def overlong : Stream where
  messages := [⟨"uploads/u/blobs/abcd/1", 0, [7], false⟩, ⟨"", 0, [8], true⟩]
  failure := none

/-- The remote `Put` reads the first byte and returns `io.EOF`. The tee gives it to the local
copy as the end of the data, and the local `Put` goes on to the rename.
-/
def cutOff : List Label :=
  [.recv, .stat .ok, .upload (.disk .ok), .upload (.disk .ok), .read 1,
    .upload (.remoteRead 1), .upload .teeReturn, .written, .recv,
    .upload (.remoteReturn (some .eof)), .read 1, .upload .teeReturn, .written, .closeWriter,
    .upload (.disk .ok), .upload (.disk .ok), .upload (.disk .ok), .upload (.disk .ok),
    .upload .closeWriter, .putReturn, .receive, .close]

def abandon : List Label :=
  [.recv, .stat .ok, .upload (.disk .ok), .upload (.disk .ok),
    .upload (.remoteReturn (some (.other (.plain "unavailable")))), .read 1,
    .upload .teeReturn, .written, .upload (.disk .ok), .upload .closeWriter, .putReturn, .recv]

/-- On a working disk, an upload that must fail can end with its first bytes as the local
blob, and it can end with `Write` blocked for good.
-/
theorem early_remote_end_breaks_failed_upload
    : overlong.Fails ⟨"abcd", 1⟩ noBlobs
      ∧ (∃ s, (writeMachine overlong noBlobs).Reachable
            (fun _ label => label.diskWorks = true) s
          ∧ s.finished = true
          ∧ s.tiers.files "abcd" = some [7])
      ∧ ∃ s, (writeMachine overlong noBlobs).Reachable
            (fun _ label => label.diskWorks = true) s
          ∧ s.blocked = true
          ∧ ∀ label, (writeMachine overlong noBlobs).step s label = none := by
  refine ⟨⟨⟨_, _, rfl, by decide⟩, rfl, fun _ => rfl, Or.inr (by decide)⟩, ?_, ?_⟩
  · obtain ⟨s, run, tested⟩ := Machine.exists_run_of_execIf (writeMachine overlong noBlobs)
      (fun _ label => label.diskWorks = true)
      { inbox := overlong.messages, tiers := noBlobs } cutOff
      (fun s => s.finished && s.tiers.files "abcd" == some [7]) (by decide)
    rw [Bool.and_eq_true, beq_iff_eq] at tested
    exact ⟨s, ⟨_, cutOff, rfl, run⟩, tested⟩
  · obtain ⟨s, run, blocked⟩ := Machine.exists_run_of_execIf (writeMachine overlong noBlobs)
      (fun _ label => label.diskWorks = true)
      { inbox := overlong.messages, tiers := noBlobs } abandon Writer.blocked (by decide)
    exact ⟨s, ⟨_, abandon, rfl, run⟩, blocked, Writer.blocked_forever blocked⟩

end Server

end GoREgo
