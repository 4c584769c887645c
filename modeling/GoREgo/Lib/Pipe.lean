import Mathlib.Algebra.Order.Ring.Int
import Mathlib.Data.List.Basic

/-! Go's synchronous in-memory pipe, `io.Pipe`: a write hands its bytes to reads one piece
after another, and each end may close the pipe with an error for the other end.
-/

namespace GoREgo.Lib

/-- The error values that code compares by identity, and all others. -/
inductive StreamError (ε : Type)
  | eof
  | closedPipe
  | other (err : ε)
deriving DecidableEq, Repr

/-- A write in progress: the bytes that reads have taken and those still to be delivered. -/
structure Handoff (α : Type) where
  sent : List α
  rest : List α
deriving DecidableEq, Repr

/-- The state of a pipe: the write in progress and the first error stored by each end. -/
structure Pipe (α ε : Type) where
  write : Option (Handoff α) := none
  rerr : Option (StreamError ε) := none
  werr : Option (StreamError ε) := none
deriving DecidableEq, Repr

namespace Pipe

variable {α ε : Type}

/-- Whether the `done` channel is closed. -/
def isClosed (p : Pipe α ε) : Bool :=
  p.rerr.isSome || p.werr.isSome

def readCloseError (p : Pipe α ε) : StreamError ε :=
  match p.rerr, p.werr with
  | none, some werr => werr
  | _, _ => .closedPipe

def writeCloseError (p : Pipe α ε) : StreamError ε :=
  match p.werr, p.rerr with
  | none, some rerr => rerr
  | _, _ => .closedPipe

/-- A writer enters `Write`; `wrMu` admits one at a time. -/
def beginWrite (p : Pipe α ε) (data : List α) : Option (Pipe α ε) :=
  match p.write with
  | none => some { p with write := some ⟨[], data⟩ }
  | some _ => none

/-- The writer leaves `Write` with the bytes that were taken: everything, or what was taken
before the pipe was closed together with the error.
-/
def endWrite (p : Pipe α ε) : Option (List α × Option (StreamError ε) × Pipe α ε) :=
  match p.write with
  | none => none
  | some ⟨sent, rest⟩ =>
      if rest.isEmpty then
        some (sent, none, { p with write := none })
      else if p.isClosed then
        some (sent, some p.writeCloseError, { p with write := none })
      else
        none

/-- A read into a buffer of `count` bytes takes the first bytes of the write in progress. -/
def read (p : Pipe α ε) (count : Nat) : Option (List α × Pipe α ε) :=
  match p.write with
  | none => none
  | some ⟨sent, rest⟩ =>
      if p.isClosed || rest.isEmpty || count == 0 then
        none
      else
        some (rest.take count,
          { p with write := some ⟨sent ++ rest.take count, rest.drop count⟩ })

def readEnd (p : Pipe α ε) : Option (StreamError ε) :=
  if p.isClosed then some p.readCloseError else none

/-- `CloseWithError` of the reader. -/
def closeRead (p : Pipe α ε) (err : Option (StreamError ε)) : Pipe α ε :=
  { p with rerr := p.rerr.orElse (fun _ => some (err.getD .closedPipe)) }

/-- `CloseWithError` of the writer. -/
def closeWrite (p : Pipe α ε) (err : Option (StreamError ε)) : Pipe α ε :=
  { p with werr := p.werr.orElse (fun _ => some (err.getD .eof)) }

def sent (p : Pipe α ε) : List α :=
  match p.write with
  | none => []
  | some handoff => handoff.sent

/-- The bytes of the write in progress that no read has taken yet. -/
def rest (p : Pipe α ε) : List α :=
  match p.write with
  | none => []
  | some handoff => handoff.rest

variable {p p' : Pipe α ε} {data chunk : List α} {count : Nat}

theorem sent_idle (idle : p.write = none) : p.sent = [] := by
  simp [sent, idle]

theorem rest_idle (idle : p.write = none) : p.rest = [] := by
  simp [rest, idle]

theorem sent_congr (same : p'.write = p.write) : p'.sent = p.sent := by
  simp [sent, same]

theorem rest_congr (same : p'.write = p.write) : p'.rest = p.rest := by
  simp [rest, same]

/-- Entering `Write` makes all its bytes wait. -/
theorem beginWrite_spec (begun : p.beginWrite data = some p')
    : p.write = none ∧ p' = { p with write := some ⟨[], data⟩ } := by
  unfold beginWrite at begun
  split at begun
  next idle => exact ⟨idle, (Option.some.inj begun).symm⟩
  next => cases begun

/-- A read moves a prefix of the waiting bytes to the taken ones and leaves the pipe open. -/
theorem read_spec (taken : p.read count = some (chunk, p'))
    : p.isClosed = false
      ∧ p.write.isSome
      ∧ p.rest = chunk ++ p'.rest
      ∧ p'.sent = p.sent ++ chunk
      ∧ p'.rerr = p.rerr
      ∧ p'.werr = p.werr := by
  unfold read at taken
  split at taken
  next => cases taken
  next sent rest found =>
    split at taken
    next => cases taken
    next open_ =>
      obtain ⟨rfl, rfl⟩ := Prod.mk.inj (Option.some.inj taken)
      simp only [Bool.or_eq_true, not_or, Bool.not_eq_true] at open_
      simp [Pipe.rest, Pipe.sent, found, open_.1.1]

theorem read_take (taken : p.read count = some (chunk, p')) : chunk = p.rest.take count := by
  unfold read at taken
  split at taken
  next => cases taken
  next sent rest found =>
    split at taken
    next => cases taken
    next =>
      obtain ⟨rfl, -⟩ := Prod.mk.inj (Option.some.inj taken)
      simp [Pipe.rest, found]

/-- A read takes something, and does not end the write that it takes from. -/
theorem read_busy (taken : p.read count = some (chunk, p'))
    : p'.write.isSome = true ∧ chunk ≠ [] := by
  unfold read at taken
  split at taken
  next => cases taken
  next sent rest found =>
    split at taken
    next => cases taken
    next ready =>
      obtain ⟨rfl, rfl⟩ := Prod.mk.inj (Option.some.inj taken)
      simp only [Bool.or_eq_true, not_or, List.isEmpty_iff, beq_iff_eq] at ready
      refine ⟨rfl, ?_⟩
      rw [Ne, List.take_eq_nil_iff, not_or]
      exact ⟨ready.2, ready.1.2⟩

/-- `Write` returns once everything was taken, or with the error of a closed pipe. -/
theorem endWrite_spec {taken : List α} {err : Option (StreamError ε)}
    (ended : p.endWrite = some (taken, err, p'))
    : p.write.isSome
      ∧ taken = p.sent
      ∧ p' = { p with write := none }
      ∧ ((err = none ∧ p.rest = [])
        ∨ (err = some p.writeCloseError ∧ p.isClosed = true ∧ p.rest ≠ [])) := by
  unfold endWrite at ended
  split at ended
  next => cases ended
  next sent rest found =>
    split at ended
    next empty =>
      obtain ⟨rfl, others⟩ := Prod.mk.inj (Option.some.inj ended)
      obtain ⟨rfl, rfl⟩ := Prod.mk.inj others
      simp_all [Pipe.sent, Pipe.rest]
    next waiting =>
      split at ended
      next closed =>
        obtain ⟨rfl, others⟩ := Prod.mk.inj (Option.some.inj ended)
        obtain ⟨rfl, rfl⟩ := Prod.mk.inj others
        rw [List.isEmpty_iff] at waiting
        simp [Pipe.sent, Pipe.rest, found, closed, waiting]
      next => cases ended

theorem endWrite_all (busy : p.write.isSome = true) (all : p.rest = [])
    : p.endWrite = some (p.sent, none, { p with write := none }) := by
  obtain ⟨⟨sent, rest⟩, found⟩ := Option.isSome_iff_exists.mp busy
  have none_left : rest = [] := by simpa [Pipe.rest, found] using all
  simp [endWrite, Pipe.sent, found, none_left]

theorem endWrite_isSome (busy : p.write.isSome = true) (ready : p.rest = [] ∨ p.isClosed = true)
    : p.endWrite.isSome = true := by
  rcases ready with all | shut
  · rw [endWrite_all busy all]
    rfl
  · obtain ⟨⟨sent, rest⟩, found⟩ := Option.isSome_iff_exists.mp busy
    simp only [endWrite, found, shut, if_true]
    split
    next => rfl
    next => rfl

theorem read_total (notClosed : p.isClosed = false) (waiting : p.rest ≠ [])
    : ∃ chunk p', p.read 1 = some (chunk, p') ∧ chunk ≠ [] := by
  cases found : p.write with
  | none => exact absurd (Pipe.rest_idle found) waiting
  | some handoff =>
      have more : handoff.rest ≠ [] := by simpa [Pipe.rest, found] using waiting
      simp [read, found, notClosed, more]

theorem closeWrite_werr {err : Option (StreamError ε)} {stored : StreamError ε}
    (closed : (p.closeWrite err).werr = some stored)
    : p.werr = some stored ∨ err.getD .eof = stored := by
  unfold closeWrite at closed
  cases before : p.werr with
  | none =>
      rw [before] at closed
      exact Or.inr (Option.some.inj closed)
  | some earlier =>
      rw [before] at closed
      exact Or.inl closed

theorem closeRead_rerr {err : Option (StreamError ε)} (readOpen : p.rerr = none)
    : (p.closeRead err).rerr = some (err.getD .closedPipe) := by
  simp [closeRead, readOpen]

/-- A reader is told `io.EOF` only when the writer closed with it and the reader's own end
is open.
-/
theorem readEnd_eof (ended : p.readEnd = some .eof)
    : p.rerr = none ∧ p.werr = some .eof := by
  unfold readEnd at ended
  split at ended
  next =>
    unfold readCloseError at ended
    split at ended
    next werr readOpen writeClosed =>
      rw [Option.some.inj ended] at writeClosed
      exact ⟨readOpen, writeClosed⟩
    next => cases ended
  next => cases ended

theorem readEnd_werr {err : StreamError ε} (ended : p.readEnd = some err)
    (readOpen : p.rerr = none)
    : p.werr = some err := by
  cases werr : p.werr with
  | none => simp [readEnd, isClosed, readOpen, werr] at ended
  | some stored => simpa [readEnd, isClosed, readCloseError, readOpen, werr] using ended

/-- A writer is told `io.EOF` only when the reader closed with it. -/
theorem writeCloseError_eof (ended : p.writeCloseError = .eof)
    : p.werr = none ∧ p.rerr = some .eof := by
  unfold writeCloseError at ended
  split at ended
  next rerr writeOpen readClosed => exact ⟨writeOpen, ended ▸ readClosed⟩
  next => cases ended

end Pipe

end GoREgo.Lib
