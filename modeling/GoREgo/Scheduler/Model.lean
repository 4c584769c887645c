import GoREgo.Proto
import Mathlib.Data.List.AList

/-! The operation tracker and its task queue, method by method.
Go pointers to operation records and to subscriber channels are references into two
stores, so a record keeps changing under every pointer that a channel still carries.
Each method takes the mutex for its whole body; the time it reads is an argument.
-/

namespace GoREgo

/-- The text of a UUID: 36 characters, each a hex digit or a dash. -/
structure UUID where
  text : String
  length_eq : text.toList.length = 36
  chars : text.toList.all (fun c => "0123456789abcdef-".toList.contains c) = true
deriving DecidableEq

/-- An operation identifier: the UUID, after a non-empty node prefix and a colon. -/
def operationID (nodePrefix : String) (uuid : UUID) : String :=
  if nodePrefix ≠ "" then nodePrefix ++ ":" ++ uuid.text else uuid.text

def operationName (id : String) : String := "operations/" ++ id

namespace Scheduler

inductive OperationState
  | queued | executing | completed
deriving DecidableEq, Repr

structure Task where
  operationID : String
  actionDigest : Digest
  skipCache : Bool
  queuedAt : Int
deriving DecidableEq, Repr

def Task.name (task : Task) : String := operationName task.operationID

structure OperationStatus where
  name : String
  state : OperationState
  metadata : ExecuteOperationMetadata
  result : Option ExecuteResponse
  error : Option GoError
  createdAt : Int
  updatedAt : Int
deriving DecidableEq, Repr

abbrev OpRef := Nat

abbrev ChanRef := Nat

structure Chan where
  buffer : List OpRef
  closed : Bool
deriving DecidableEq, Repr

def chanCapacity : Nat := 10

/-- A non-blocking send: it stores the pointer when the buffer has room. -/
def Chan.offer (chan : Chan) (ref : OpRef) : Chan :=
  if chan.buffer.length < chanCapacity then
    { chan with buffer := chan.buffer ++ [ref] }
  else
    chan

/-- The scheduler. `heap` and `chans` are the records and channels ever allocated, below
`nextOp` and `nextChan`; `panicked` records a send on or a close of a closed channel.
-/
structure State where
  operations : AList (fun _ : String => OpRef)
  subscribers : String → List ChanRef
  taskQueue : List Task
  queueSize : Nat
  retention : Int
  nodeID : String
  executingCount : Int
  heap : OpRef → OperationStatus
  nextOp : OpRef
  chans : ChanRef → Chan
  nextChan : ChanRef
  panicked : Bool

/-- The contents of a record or channel before it is allocated; no pointer leads there. -/
def blankStatus : OperationStatus where
  name := ""
  state := .queued
  metadata := { stage := .queued, actionDigest := { hash := "", sizeBytes := 0 } }
  result := none
  error := none
  createdAt := 0
  updatedAt := 0

def defaultRetention : Int := 600000000000

def newScheduler (queueSize : Nat) (nodeID : String) : State where
  operations := ∅
  subscribers := fun _ => []
  taskQueue := []
  queueSize := queueSize
  retention := defaultRetention
  nodeID := nodeID
  executingCount := 0
  heap := fun _ => blankStatus
  nextOp := 0
  chans := fun _ => { buffer := [], closed := false }
  nextChan := 0
  panicked := false

namespace State

def status? (s : State) (name : String) : Option OperationStatus :=
  (s.operations.lookup name).map s.heap

/-- The `result` that a record reports: only a completed one reports any, and an error
comes before a response.
-/
def outcome (op : OperationStatus) : Operation.Result :=
  if op.state = .completed then
    match op.error with
    | some err => .error err.convert
    | none =>
        match op.result with
        | some response => .response response
        | none => .unset
  else
    .unset

def toProto (op : OperationStatus) : Operation where
  name := op.name
  metadata := op.metadata
  done := op.state = .completed
  result := outcome op

def operationNotFound : GoError := .status .notFound "operation not found"

def getOperation (s : State) (name : String) : Except GoError Operation :=
  match s.operations.lookup name with
  | none => .error operationNotFound
  | some ref => .ok (toProto (s.heap ref))

/-- `ListOperations`; the map's iteration order is its list order here. -/
def listOperations (s : State) : List Operation :=
  s.operations.entries.map (fun entry => toProto (s.heap entry.2))

def getPendingTaskCount (s : State) : Int := s.taskQueue.length + s.executingCount

/-- `notifySubscribersLocked`: offer the pointer to each subscriber in turn. -/
def notifySubscribersLocked (s : State) (name : String) (ref : OpRef) : State :=
  { s with
    chans :=
      (s.subscribers name).foldl
        (fun chans ch => Function.update chans ch ((chans ch).offer ref)) s.chans
    panicked := s.panicked || (s.subscribers name).any (fun ch => (s.chans ch).closed) }

/-- `Subscribe`: a new channel, registered and holding the current record if there is one.
-/
def subscribe (s : State) (name : String) : State × ChanRef :=
  let ch := s.nextChan
  let buffer :=
    match s.operations.lookup name with
    | some ref => [ref]
    | none => []
  ({ s with
      subscribers := Function.update s.subscribers name (s.subscribers name ++ [ch])
      chans := Function.update s.chans ch { buffer, closed := false }
      nextChan := s.nextChan + 1 },
    ch)

/-- The function that `Subscribe` returns: it drops and closes a registered channel. -/
def unsubscribe (s : State) (name : String) (ch : ChanRef) : State :=
  if ch ∈ s.subscribers name then
    { s with
      subscribers := Function.update s.subscribers name ((s.subscribers name).erase ch)
      chans := Function.update s.chans ch { s.chans ch with closed := true }
      panicked := s.panicked || (s.chans ch).closed }
  else
    s

/-- Receive from a channel's buffer; an empty open channel blocks. -/
def receive? (s : State) (ch : ChanRef) : Option (OpRef × State) :=
  match (s.chans ch).buffer with
  | [] => none
  | ref :: rest =>
      some (ref, { s with chans := Function.update s.chans ch { s.chans ch with buffer := rest } })

/-- The task that an `Enqueue` builds. The override comes before the scheduler's own ID. -/
def newTask (s : State) (uuid : UUID) (actionDigest : Digest) (skipCache : Bool)
    (nodeIDOverride : String) (now : Int)
    : Task where
  operationID := operationID (if nodeIDOverride ≠ "" then nodeIDOverride else s.nodeID) uuid
  actionDigest := actionDigest
  skipCache := skipCache
  queuedAt := now

def newStatus (task : Task) : OperationStatus where
  name := task.name
  state := .queued
  metadata := { stage := .queued, actionDigest := task.actionDigest }
  result := none
  error := none
  createdAt := task.queuedAt
  updatedAt := task.queuedAt

/-- The non-blocking send of `Enqueue`. A channel of size zero has no buffer and passes
the task straight to a waiting receiver, if there is one.
-/
def offerTask? (s : State) (task : Task) (receiver : Bool) : Option State :=
  if s.taskQueue.length < s.queueSize then
    some { s with taskQueue := s.taskQueue ++ [task] }
  else if s.queueSize = 0 ∧ receiver = true then
    some s
  else
    none

/-- The map insertion of `Enqueue`, with the record's allocation. -/
def insertStatus (s : State) (op : OperationStatus) : State :=
  { s with
    operations := s.operations.insert op.name s.nextOp
    heap := Function.update s.heap s.nextOp op
    nextOp := s.nextOp + 1 }

def queueFull : GoError := .status .resourceExhausted "execution queue is full"

/-- `Enqueue`: send the task, then track its operation. -/
def enqueue (s : State) (uuid : UUID) (actionDigest : Digest) (skipCache : Bool)
    (nodeIDOverride : String) (now : Int) (receiver : Bool)
    : State × Except GoError Operation :=
  let task := s.newTask uuid actionDigest skipCache nodeIDOverride now
  match s.offerTask? task receiver with
  | none => (s, .error queueFull)
  | some sent => (sent.insertStatus (newStatus task), .ok (toProto (newStatus task)))

/-- `Dequeue`; an empty queue blocks. -/
def dequeue? (s : State) : Option (Task × State) :=
  match s.taskQueue with
  | [] => none
  | task :: rest => some (task, { s with taskQueue := rest })

theorem dequeue?_spec {s s' : State} {task : Task} (removed : s.dequeue? = some (task, s'))
    : ∃ rest, s.taskQueue = task :: rest ∧ s' = { s with taskQueue := rest } := by
  unfold dequeue? at removed
  split at removed
  · cases removed
  · next rest queued =>
    cases removed
    exact ⟨rest, queued, rfl⟩

def store (s : State) (name : String) (ref : OpRef) (count : Int) (op : OperationStatus)
    : State :=
  { s with
    executingCount := count
    heap := Function.update s.heap ref op }.notifySubscribersLocked name ref

def updateState (s : State) (name : String) (state : OperationState)
    (metadata : ExecuteOperationMetadata) (now : Int)
    : State :=
  match s.operations.lookup name with
  | none => s
  | some ref =>
      let op := s.heap ref
      let count :=
        if op.state ≠ .executing ∧ state = .executing then
          s.executingCount + 1
        else if op.state = .executing ∧ state ≠ .executing then
          s.executingCount - 1
        else
          s.executingCount
      s.store name ref count { op with state, metadata, updatedAt := now }

/-- The record of a completed operation, with the outcome that `record` stores in it. -/
def completed (op : OperationStatus) (record : OperationStatus → OperationStatus) (now : Int)
    : OperationStatus :=
  { record op with
    state := .completed
    metadata := { op.metadata with stage := .completed }
    updatedAt := now }

/-- The common body of `Complete` and `Fail`. -/
def finish (s : State) (name : String) (record : OperationStatus → OperationStatus)
    (now : Int)
    : State :=
  match s.operations.lookup name with
  | none => s
  | some ref =>
      let op := s.heap ref
      let count :=
        if op.state = .executing then s.executingCount - 1 else s.executingCount
      s.store name ref count (completed op record now)

def complete (s : State) (name : String) (result : Option ExecuteResponse) (now : Int)
    : State :=
  s.finish name (fun op => { op with result }) now

def fail (s : State) (name : String) (error : Option GoError) (now : Int) : State :=
  s.finish name (fun op => { op with error }) now

def operationCancelled : GoError := .status .canceled "operation cancelled"

def notCancellable : GoError :=
  .status .failedPrecondition "can only cancel queued operations"

def cancelOperation (s : State) (name : String) (now : Int) : State × Option GoError :=
  match s.operations.lookup name with
  | none => (s, some operationNotFound)
  | some ref =>
      let op := s.heap ref
      if op.state ≠ .queued then
        (s, some notCancellable)
      else
        (s.store name ref s.executingCount
            (completed op (fun op => { op with error := some operationCancelled }) now),
          none)

def deleteOperation (s : State) (name : String) : State × Option GoError :=
  match s.operations.lookup name with
  | none => (s, some operationNotFound)
  | some _ => ({ s with operations := s.operations.erase name }, none)

def expired (s : State) (now : Int) (name : String) : Bool :=
  match s.status? name with
  | none => false
  | some op => op.state = .completed ∧ op.updatedAt < now - s.retention

/-- `CleanupExpired`: drop each expired operation and its list of subscribers. -/
def cleanupExpired (s : State) (now : Int) : State :=
  let gone := s.operations.keys.filter (s.expired now)
  { s with
    operations := gone.foldl (fun operations name => operations.erase name) s.operations
    subscribers := fun name => if name ∈ gone then [] else s.subscribers name }

end State

end Scheduler

end GoREgo
