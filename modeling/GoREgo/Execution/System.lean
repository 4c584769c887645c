import GoREgo.Lib.Machine
import GoREgo.Scheduler.Records

/-! One node's execution service: the scheduler, its workers, the stream handlers and the
operation calls, in any interleaving.
`Enqueue` sends its task before it tracks the operation, so it takes two steps that hold
the mutex between them; every other scheduler method is one step, and `Dequeue` takes no
mutex. A handler's receive, send and state check are steps of their own.
-/

namespace GoREgo.Execution

open Scheduler

/-- The two uses that `Execute` makes of `Enqueue`: for a result found in the action
cache, and on the local path, which `executeLocally` shares.
-/
inductive Request
  | cached (actionDigest : Digest) (result : ActionResult)
  | execute (actionDigest : Digest) (skipCacheLookup : Bool) (originNodeID : String)
deriving DecidableEq

def Request.task (request : Request) (sched : State) (uuid : UUID) (now : Int) : Task :=
  match request with
  | .cached actionDigest _ => sched.newTask uuid actionDigest true "" now
  | .execute actionDigest skipCacheLookup originNodeID =>
      sched.newTask uuid actionDigest skipCacheLookup originNodeID now

/-- Where a handler stands. `update` is the pointer it received last. -/
inductive Pc
  | idle
  | enqueueing (task : Task) (request : Request)
  | completing (name : String) (result : ActionResult)
  | fetching (name : String)
  | replying (op : Operation)
  | subscribing (name : String) (first : Option Operation)
  | greeting (name : String) (ch : ChanRef) (op : Operation)
  | receiving (name : String) (ch : ChanRef)
  | received (name : String) (ch : ChanRef) (update : OpRef)
  | sending (name : String) (ch : ChanRef) (update : OpRef) (op : Operation)
  | checking (name : String) (ch : ChanRef) (update : OpRef)
  | unsubscribing (name : String) (ch : ChanRef) (result : Option GoError)
  | returned (result : Option GoError)
deriving DecidableEq

inductive HandlerKind
  | executeCached | execute | waitExecution
deriving DecidableEq

structure Handler where
  kind : HandlerKind
  pc : Pc
  sent : List Operation
deriving DecidableEq

def Handler.new : Handler where
  kind := .execute
  pc := .idle
  sent := []

/-- The value that a handler returns after its update loop; only `WaitExecution` looks at
its context first.
-/
def Handler.loopResult (handler : Handler) (cancelled : Bool) : Option GoError :=
  if handler.kind = .waitExecution ∧ cancelled = true then
    some (.status .canceled "client cancelled")
  else
    none

/-- One move of a handler outside `Enqueue`. A send carries the error that the stream
reports; a receive and a check, which can end the loop, carry whether the handler's context
is cancelled.
-/
inductive Move
  | complete (now : Int)
  | getOperation
  | send (error : Option GoError)
  | subscribe
  | receive (cancelled : Bool)
  | check (cancelled : Bool)
  | unsubscribe
  | waitExecution (name : String)
deriving DecidableEq

def Move.locks : Move → Bool
  | .send _ | .receive _ | .check _ => false
  | _ => true

def afterSubscribe (name : String) (ch : ChanRef) : Option Operation → Pc
  | some op => .greeting name ch op
  | none => .receiving name ch

def Handler.move (handler : Handler) (sched : State) : Move → Option (State × Handler)
  | .complete now =>
      match handler.pc with
      | .completing name result =>
          some (sched.complete name (some { result, cachedResult := true }) now,
            { handler with pc := .fetching name })
      | _ => none
  | .getOperation =>
      match handler.pc with
      | .fetching name =>
          match sched.getOperation name with
          | .error err => some (sched, { handler with pc := .returned (some err) })
          | .ok op => some (sched, { handler with pc := .replying op })
      | .received name ch update =>
          match sched.getOperation name with
          -- the loop continues without a check when the operation is gone
          | .error _ => some (sched, { handler with pc := .receiving name ch })
          | .ok op => some (sched, { handler with pc := .sending name ch update op })
      | _ => none
  | .send error =>
      match handler.pc, error with
      | .replying op, none =>
          some (sched, { handler with pc := .returned none, sent := handler.sent ++ [op] })
      | .replying _, some err => some (sched, { handler with pc := .returned (some err) })
      | .greeting name ch op, none =>
          some (sched,
            { handler with pc := .receiving name ch, sent := handler.sent ++ [op] })
      | .greeting name ch _, some err =>
          some (sched, { handler with pc := .unsubscribing name ch (some err) })
      | .sending name ch update op, none =>
          some (sched,
            { handler with pc := .checking name ch update, sent := handler.sent ++ [op] })
      | .sending name ch _ _, some err =>
          some (sched, { handler with pc := .unsubscribing name ch (some err) })
      | _, _ => none
  | .subscribe =>
      match handler.pc with
      | .subscribing name first =>
          some ((sched.subscribe name).1,
            { handler with pc := afterSubscribe name (sched.subscribe name).2 first })
      | _ => none
  | .receive cancelled =>
      match handler.pc with
      | .receiving name ch =>
          match sched.receive? ch with
          | some (update, taken) =>
              some (taken, { handler with pc := .received name ch update })
          | none =>
              if (sched.chans ch).closed then
                some (sched,
                  { handler with
                    pc := .unsubscribing name ch (handler.loopResult cancelled) })
              else
                none
      | _ => none
  | .check cancelled =>
      match handler.pc with
      | .checking name ch update =>
          if (sched.heap update).state = .completed then
            some (sched,
              { handler with pc := .unsubscribing name ch (handler.loopResult cancelled) })
          else
            some (sched, { handler with pc := .receiving name ch })
      | _ => none
  | .unsubscribe =>
      match handler.pc with
      | .unsubscribing name ch result =>
          some (sched.unsubscribe name ch, { handler with pc := .returned result })
      | _ => none
  | .waitExecution name =>
      match handler.pc with
      | .idle =>
          match sched.getOperation name with
          | .error err =>
              some (sched,
                { handler with kind := .waitExecution, pc := .returned (some err) })
          | .ok op =>
              if op.done then
                some (sched, { handler with kind := .waitExecution, pc := .replying op })
              else
                some (sched,
                  { handler with kind := .waitExecution, pc := .subscribing name none })
      | _ => none

/-- Where a worker stands: in `Dequeue`, before its `UpdateState`, or inside `execute`. -/
inductive Worker
  | idle
  | dequeued (task : Task)
  | executing (task : Task)
deriving DecidableEq

/-- The whole system. `locked` is the handler inside `Enqueue`; `created` and `handed` are
the tasks sent so far and the tasks given to workers so far, in order.
-/
structure System (W H : Type) where
  sched : State
  locked : Option H
  workers : W → Worker
  handlers : H → Handler
  issued : List UUID
  created : List Task
  handed : List (W × Task)

/-- One step of the system. `waiting` is the worker that blocks in `Dequeue` on a channel
without a buffer, if any; a worker finishes with the error or the result of `execute`.
-/
inductive Label (W H : Type)
  | enqueue (h : H) (request : Request) (uuid : UUID) (now : Int) (waiting : Option W)
  | insert (h : H)
  | handler (h : H) (move : Move)
  | dequeue (w : W)
  | updateState (w : W) (now : Int)
  | finish (w : W) (outcome : Except GoError ActionResult) (now : Int)
  | cancelOperation (name : String) (now : Int)
  | deleteOperation (name : String)
  | cleanupExpired (now : Int)

def executingMetadata (task : Task) : ExecuteOperationMetadata where
  stage := .executing
  actionDigest := task.actionDigest

/-- The last call of `executeTask`. -/
def finishTask (sched : State) (task : Task) (outcome : Except GoError ActionResult)
    (now : Int)
    : State :=
  match outcome with
  | .error err => sched.fail task.name (some err) now
  | .ok result => sched.complete task.name (some { result, cachedResult := false }) now

def afterEnqueue (task : Task) : Request → Pc
  | .cached _ result => .completing task.name result
  | .execute _ _ _ => .subscribing task.name (some (State.toProto (State.newStatus task)))

def Request.kind : Request → HandlerKind
  | .cached _ _ => .executeCached
  | .execute _ _ _ => .execute

namespace System

variable {W H : Type} [DecidableEq W] [DecidableEq H]

/-- A waiting worker gets the task at once when the queue has no buffer. -/
def handOver (s : System W H) (task : Task) (waiting : Option W) : System W H :=
  match waiting with
  | some w =>
      if s.sched.queueSize = 0 then
        { s with
          workers := Function.update s.workers w (.dequeued task)
          handed := s.handed ++ [(w, task)] }
      else
        s
  | none => s

def step (s : System W H) : Label W H → Option (System W H)
  | .enqueue h request uuid now waiting =>
      if s.locked = none ∧ (s.handlers h).pc = .idle ∧ uuid ∉ s.issued then
        let task := request.task s.sched uuid now
        let receiver := waiting.any (fun w => s.workers w = .idle)
        match s.sched.offerTask? task receiver with
        | none =>
            some { s with
              handlers :=
                Function.update s.handlers h
                  { s.handlers h with
                    kind := request.kind, pc := .returned (some State.queueFull) }
              issued := uuid :: s.issued }
        | some sent =>
            some ({ s with
              sched := sent
              locked := some h
              handlers :=
                Function.update s.handlers h
                  { s.handlers h with kind := request.kind, pc := .enqueueing task request }
              issued := uuid :: s.issued
              created := s.created ++ [task] }.handOver task waiting)
      else
        none
  | .insert h =>
      match (s.handlers h).pc with
      | .enqueueing task request =>
          if s.locked = some h then
            some { s with
              sched := s.sched.insertStatus (State.newStatus task)
              locked := none
              handlers :=
                Function.update s.handlers h
                  { s.handlers h with pc := afterEnqueue task request } }
          else
            none
      | _ => none
  | .handler h move =>
      if move.locks = true ∧ s.locked.isSome then
        none
      else
        ((s.handlers h).move s.sched move).map (fun moved =>
          { s with sched := moved.1, handlers := Function.update s.handlers h moved.2 })
  | .dequeue w =>
      match s.workers w, s.sched.dequeue? with
      | .idle, some (task, sched) =>
          some { s with
            sched
            workers := Function.update s.workers w (.dequeued task)
            handed := s.handed ++ [(w, task)] }
      | _, _ => none
  | .updateState w now =>
      match s.workers w, s.locked with
      | .dequeued task, none =>
          some { s with
            sched := s.sched.updateState task.name .executing (executingMetadata task) now
            workers := Function.update s.workers w (.executing task) }
      | _, _ => none
  | .finish w outcome now =>
      match s.workers w, s.locked with
      | .executing task, none =>
          some { s with
            sched := finishTask s.sched task outcome now
            workers := Function.update s.workers w .idle }
      | _, _ => none
  | .cancelOperation name now =>
      if s.locked = none then
        some { s with sched := (s.sched.cancelOperation name now).1 }
      else
        none
  | .deleteOperation name =>
      if s.locked = none then
        some { s with sched := (s.sched.deleteOperation name).1 }
      else
        none
  | .cleanupExpired now =>
      if s.locked = none then some { s with sched := s.sched.cleanupExpired now } else none

def new (queueSize : Nat) (nodeID : String) : System W H where
  sched := newScheduler queueSize nodeID
  locked := none
  workers := fun _ => .idle
  handlers := fun _ => .new
  issued := []
  created := []
  handed := []

def machine : Lib.Machine (System W H) (Label W H) where
  initial s := ∃ queueSize nodeID, s = new queueSize nodeID
  step := step

end System

end GoREgo.Execution
