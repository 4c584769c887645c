import GoREgo.Execution.System

/-! What one step of the execution service can do, stated once.
Most handler moves only touch channels; the ones that touch the operation records or the
queue are listed with their guards and the state they leave.
-/

namespace GoREgo.Execution

open Scheduler

structure SameRecords (sched sched' : State) : Prop where
  operations : sched'.operations = sched.operations
  heap : sched'.heap = sched.heap
  nextOp : sched'.nextOp = sched.nextOp
  taskQueue : sched'.taskQueue = sched.taskQueue
  queueSize : sched'.queueSize = sched.queueSize
  nodeID : sched'.nodeID = sched.nodeID

theorem SameRecords.refl (sched : State) : SameRecords sched sched :=
  ⟨rfl, rfl, rfl, rfl, rfl, rfl⟩

def Pc.enqueues : Pc → Option Task
  | .enqueueing task _ => some task
  | _ => none

def Pc.completes : Pc → Option String
  | .completing name _ => some name
  | _ => none

section Observations

variable {α H : Type} [DecidableEq H] {handlers : H → Handler} {h other : H}
  {handler : Handler}

theorem pc_cases (observe : Pc → α) {value : α}
    (found : observe (Function.update handlers h handler other).pc = value)
    : (other = h ∧ observe handler.pc = value)
      ∨ (other ≠ h ∧ observe (handlers other).pc = value) :=
  Lib.update_cases (fun handler : Handler => observe handler.pc) found

theorem pc_update (observe : Pc → Option α) {value : α} (after : observe handler.pc = none)
    (found : observe (Function.update handlers h handler other).pc = some value)
    : other ≠ h ∧ observe (handlers other).pc = some value := by
  rcases pc_cases observe found with ⟨_, here⟩ | elsewhere
  · rw [after] at here
    cases here
  · exact elsewhere

end Observations

section Moves

variable {handler handler' : Handler} {sched sched' : State} {move : Move}

theorem subscribe_sameRecords (sched : State) (name : String)
    : SameRecords sched (sched.subscribe name).1 :=
  ⟨rfl, rfl, rfl, rfl, rfl, rfl⟩

theorem unsubscribe_sameRecords (sched : State) (name : String) (ch : ChanRef)
    : SameRecords sched (sched.unsubscribe name ch) := by
  unfold State.unsubscribe
  split
  · exact ⟨rfl, rfl, rfl, rfl, rfl, rfl⟩
  · exact .refl sched

theorem receive_sameRecords {ch : ChanRef} {update : OpRef}
    (taken : sched.receive? ch = some (update, sched'))
    : SameRecords sched sched' := by
  unfold State.receive? at taken
  split at taken
  · simp at taken
  · obtain ⟨_, rfl⟩ := Prod.mk.inj (Option.some.inj taken)
    exact ⟨rfl, rfl, rfl, rfl, rfl, rfl⟩

inductive Handler.Moved (handler : Handler) (sched : State)
  : Move → State → Handler → Prop
  | complete {name result now} (pc : handler.pc = .completing name result)
    : Moved handler sched (.complete now)
        (sched.complete name (some { result, cachedResult := true }) now)
        { handler with pc := .fetching name }
  | fetchGone {name err} (pc : handler.pc = .fetching name)
    (gone : sched.getOperation name = .error err)
    : Moved handler sched .getOperation sched { handler with pc := .returned (some err) }
  | fetch {name op} (pc : handler.pc = .fetching name)
    (found : sched.getOperation name = .ok op)
    : Moved handler sched .getOperation sched { handler with pc := .replying op }
  | skip {name ch update err} (pc : handler.pc = .received name ch update)
    (gone : sched.getOperation name = .error err)
    : Moved handler sched .getOperation sched { handler with pc := .receiving name ch }
  | snapshot {name ch update op} (pc : handler.pc = .received name ch update)
    (found : sched.getOperation name = .ok op)
    : Moved handler sched .getOperation sched
        { handler with pc := .sending name ch update op }
  | reply {op} (pc : handler.pc = .replying op)
    : Moved handler sched (.send none) sched
        { handler with pc := .returned none, sent := handler.sent ++ [op] }
  | replyFailed {op err} (pc : handler.pc = .replying op)
    : Moved handler sched (.send (some err)) sched
        { handler with pc := .returned (some err) }
  | greet {name ch op} (pc : handler.pc = .greeting name ch op)
    : Moved handler sched (.send none) sched
        { handler with pc := .receiving name ch, sent := handler.sent ++ [op] }
  | greetFailed {name ch op err} (pc : handler.pc = .greeting name ch op)
    : Moved handler sched (.send (some err)) sched
        { handler with pc := .unsubscribing name ch (some err) }
  | report {name ch update op} (pc : handler.pc = .sending name ch update op)
    : Moved handler sched (.send none) sched
        { handler with pc := .checking name ch update, sent := handler.sent ++ [op] }
  | reportFailed {name ch update op err} (pc : handler.pc = .sending name ch update op)
    : Moved handler sched (.send (some err)) sched
        { handler with pc := .unsubscribing name ch (some err) }
  | subscribe {name first} (pc : handler.pc = .subscribing name first)
    : Moved handler sched .subscribe (sched.subscribe name).1
        { handler with pc := afterSubscribe name (sched.subscribe name).2 first }
  | receive {name ch update taken cancelled} (pc : handler.pc = .receiving name ch)
    (got : sched.receive? ch = some (update, taken))
    : Moved handler sched (.receive cancelled) taken
        { handler with pc := .received name ch update }
  | closed {name ch cancelled} (pc : handler.pc = .receiving name ch)
    (closed : (sched.chans ch).closed = true)
    : Moved handler sched (.receive cancelled) sched
        { handler with pc := .unsubscribing name ch (handler.loopResult cancelled) }
  | stop {name ch update cancelled} (pc : handler.pc = .checking name ch update)
    (done : (sched.heap update).state = .completed)
    : Moved handler sched (.check cancelled) sched
        { handler with pc := .unsubscribing name ch (handler.loopResult cancelled) }
  | resume {name ch update cancelled} (pc : handler.pc = .checking name ch update)
    (running : (sched.heap update).state ≠ .completed)
    : Moved handler sched (.check cancelled) sched
        { handler with pc := .receiving name ch }
  | unsubscribe {name ch result} (pc : handler.pc = .unsubscribing name ch result)
    : Moved handler sched .unsubscribe (sched.unsubscribe name ch)
        { handler with pc := .returned result }
  | waitGone {name err} (pc : handler.pc = .idle)
    (gone : sched.getOperation name = .error err)
    : Moved handler sched (.waitExecution name) sched
        { handler with kind := .waitExecution, pc := .returned (some err) }
  | waitDone {name op} (pc : handler.pc = .idle) (found : sched.getOperation name = .ok op)
    (done : op.done = true)
    : Moved handler sched (.waitExecution name) sched
        { handler with kind := .waitExecution, pc := .replying op }
  | wait {name op} (pc : handler.pc = .idle) (found : sched.getOperation name = .ok op)
    (running : op.done = false)
    : Moved handler sched (.waitExecution name) sched
        { handler with kind := .waitExecution, pc := .subscribing name none }

/-- Every enabled move is one of the listed ones, by the move and then the pc. -/
theorem Handler.moved_of_move (moved : handler.move sched move = some (sched', handler'))
    : handler.Moved sched move sched' handler' := by
  cases move with
  | complete now =>
      cases pc : handler.pc <;> simp only [Handler.move, pc, reduceCtorEq] at moved
      obtain ⟨rfl, rfl⟩ := Prod.mk.inj (Option.some.inj moved)
      exact .complete pc
  | getOperation =>
      cases pc : handler.pc <;> simp only [Handler.move, pc, reduceCtorEq] at moved
      case fetching name =>
        cases got : sched.getOperation name <;> simp only [got] at moved <;>
          obtain ⟨rfl, rfl⟩ := Prod.mk.inj (Option.some.inj moved)
        · exact .fetchGone pc got
        · exact .fetch pc got
      case received name ch update =>
        cases got : sched.getOperation name <;> simp only [got] at moved <;>
          obtain ⟨rfl, rfl⟩ := Prod.mk.inj (Option.some.inj moved)
        · exact .skip pc got
        · exact .snapshot pc got
  | send error =>
      cases pc : handler.pc <;> cases error <;>
        simp only [Handler.move, pc, reduceCtorEq] at moved <;>
        obtain ⟨rfl, rfl⟩ := Prod.mk.inj (Option.some.inj moved)
      · exact .reply pc
      · exact .replyFailed pc
      · exact .greet pc
      · exact .greetFailed pc
      · exact .report pc
      · exact .reportFailed pc
  | subscribe =>
      cases pc : handler.pc <;> simp only [Handler.move, pc, reduceCtorEq] at moved
      obtain ⟨rfl, rfl⟩ := Prod.mk.inj (Option.some.inj moved)
      exact .subscribe pc
  | receive cancelled =>
      cases pc : handler.pc <;> simp only [Handler.move, pc, reduceCtorEq] at moved
      case receiving name ch =>
        split at moved
        next update taken got =>
          obtain ⟨rfl, rfl⟩ := Prod.mk.inj (Option.some.inj moved)
          exact .receive pc got
        next =>
          split at moved
          next closed =>
            obtain ⟨rfl, rfl⟩ := Prod.mk.inj (Option.some.inj moved)
            exact .closed pc closed
          next => simp at moved
  | check cancelled =>
      cases pc : handler.pc <;> simp only [Handler.move, pc, reduceCtorEq] at moved
      case checking name ch update =>
        split at moved <;> obtain ⟨rfl, rfl⟩ := Prod.mk.inj (Option.some.inj moved)
        next done => exact .stop pc done
        next running => exact .resume pc running
  | unsubscribe =>
      cases pc : handler.pc <;> simp only [Handler.move, pc, reduceCtorEq] at moved
      obtain ⟨rfl, rfl⟩ := Prod.mk.inj (Option.some.inj moved)
      exact .unsubscribe pc
  | waitExecution name =>
      cases pc : handler.pc <;> simp only [Handler.move, pc, reduceCtorEq] at moved
      case idle =>
        cases got : sched.getOperation name <;> simp only [got] at moved
        case error err =>
          obtain ⟨rfl, rfl⟩ := Prod.mk.inj (Option.some.inj moved)
          exact .waitGone pc got
        case ok op =>
          split at moved <;> obtain ⟨rfl, rfl⟩ := Prod.mk.inj (Option.some.inj moved)
          next done => exact .waitDone pc got done
          next running => exact .wait pc got (by simpa using running)

/-- Except for the cached `Complete`, a handler's move leaves the records and the queue
alone, and it neither starts inside `Enqueue` or before that `Complete` nor ends there.
-/
theorem Handler.Moved.quiet (moved : handler.Moved sched move sched' handler')
    (other : ∀ now, move ≠ .complete now)
    : SameRecords sched sched'
      ∧ (handler.pc.enqueues = none ∧ handler.pc.completes = none)
      ∧ (handler'.pc.enqueues = none ∧ handler'.pc.completes = none) := by
  cases moved with
  | complete pc => exact (other _ rfl).elim
  | @subscribe name first pc =>
      rw [pc]
      refine ⟨subscribe_sameRecords sched name, ⟨rfl, rfl⟩, ?_⟩
      cases first <;> exact ⟨rfl, rfl⟩
  | receive pc got =>
      rw [pc]
      exact ⟨receive_sameRecords got, ⟨rfl, rfl⟩, rfl, rfl⟩
  | unsubscribe pc =>
      rw [pc]
      exact ⟨unsubscribe_sameRecords .., ⟨rfl, rfl⟩, rfl, rfl⟩
  | fetchGone pc | fetch pc | skip pc | snapshot pc | reply pc | replyFailed pc | greet pc
  | greetFailed pc | report pc | reportFailed pc | closed pc | stop pc | resume pc
  | waitGone pc | waitDone pc | wait pc =>
      rw [pc]
      exact ⟨.refl _, ⟨rfl, rfl⟩, rfl, rfl⟩

end Moves

namespace System

variable {W H : Type} [DecidableEq W] [DecidableEq H]

inductive Effect (s : System W H) : Label W H → System W H → Prop
  | full {h request uuid now waiting} (unlocked : s.locked = none)
    (idle : (s.handlers h).pc = .idle) (fresh : uuid ∉ s.issued)
    : Effect s (.enqueue h request uuid now waiting)
        { s with
          handlers :=
            Function.update s.handlers h
              { s.handlers h with
                kind := request.kind, pc := .returned (some State.queueFull) }
          issued := uuid :: s.issued }
  | sent {h request uuid now waiting} (unlocked : s.locked = none)
    (idle : (s.handlers h).pc = .idle) (fresh : uuid ∉ s.issued)
    (room : s.sched.taskQueue.length < s.sched.queueSize)
    : Effect s (.enqueue h request uuid now waiting)
        { s with
          sched :=
            { s.sched with
              taskQueue := s.sched.taskQueue ++ [request.task s.sched uuid now] }
          locked := some h
          handlers :=
            Function.update s.handlers h
              { s.handlers h with
                kind := request.kind
                pc := .enqueueing (request.task s.sched uuid now) request }
          issued := uuid :: s.issued
          created := s.created ++ [request.task s.sched uuid now] }
  | handed {h request uuid now w} (unlocked : s.locked = none)
    (idle : (s.handlers h).pc = .idle) (fresh : uuid ∉ s.issued)
    (unbuffered : s.sched.queueSize = 0) (waits : s.workers w = .idle)
    : Effect s (.enqueue h request uuid now (some w))
        { s with
          locked := some h
          workers :=
            Function.update s.workers w (.dequeued (request.task s.sched uuid now))
          handlers :=
            Function.update s.handlers h
              { s.handlers h with
                kind := request.kind
                pc := .enqueueing (request.task s.sched uuid now) request }
          issued := uuid :: s.issued
          created := s.created ++ [request.task s.sched uuid now]
          handed := s.handed ++ [(w, request.task s.sched uuid now)] }
  | insert {h task request} (pc : (s.handlers h).pc = .enqueueing task request)
    (locked : s.locked = some h)
    : Effect s (.insert h)
        { s with
          sched := s.sched.insertStatus (State.newStatus task)
          locked := none
          handlers :=
            Function.update s.handlers h
              { s.handlers h with pc := afterEnqueue task request } }
  | quiet {h move sched' handler'}
    (moved : (s.handlers h).Moved s.sched move sched' handler')
    (unlocked : move.locks = true → s.locked = none) (other : ∀ now, move ≠ .complete now)
    (same : SameRecords s.sched sched')
    (before : (s.handlers h).pc.enqueues = none ∧ (s.handlers h).pc.completes = none)
    (after : handler'.pc.enqueues = none ∧ handler'.pc.completes = none)
    : Effect s (.handler h move)
        { s with sched := sched', handlers := Function.update s.handlers h handler' }
  | completed {h now name result} (unlocked : s.locked = none)
    (pc : (s.handlers h).pc = .completing name result)
    : Effect s (.handler h (.complete now))
        { s with
          sched := s.sched.complete name (some { result, cachedResult := true }) now
          handlers :=
            Function.update s.handlers h { s.handlers h with pc := .fetching name } }
  | dequeue {w task rest} (idle : s.workers w = .idle)
    (queue : s.sched.taskQueue = task :: rest)
    : Effect s (.dequeue w)
        { s with
          sched := { s.sched with taskQueue := rest }
          workers := Function.update s.workers w (.dequeued task)
          handed := s.handed ++ [(w, task)] }
  | updateState {w now task} (holds : s.workers w = .dequeued task)
    (unlocked : s.locked = none)
    : Effect s (.updateState w now)
        { s with
          sched := s.sched.updateState task.name .executing (executingMetadata task) now
          workers := Function.update s.workers w (.executing task) }
  | finish {w outcome now task} (runs : s.workers w = .executing task)
    (unlocked : s.locked = none)
    : Effect s (.finish w outcome now)
        { s with
          sched := finishTask s.sched task outcome now
          workers := Function.update s.workers w .idle }
  | cancelOperation {name now} (unlocked : s.locked = none)
    : Effect s (.cancelOperation name now)
        { s with sched := (s.sched.cancelOperation name now).1 }
  | deleteOperation {name} (unlocked : s.locked = none)
    : Effect s (.deleteOperation name)
        { s with sched := (s.sched.deleteOperation name).1 }
  | cleanupExpired {now} (unlocked : s.locked = none)
    : Effect s (.cleanupExpired now) { s with sched := s.sched.cleanupExpired now }

variable {s s' : System W H} {label : Label W H}

theorem enqueue_effect {h : H} {request : Request} {uuid : UUID} {now : Int}
    {waiting : Option W} (taken : s.step (.enqueue h request uuid now waiting) = some s')
    : s.Effect (.enqueue h request uuid now waiting) s' := by
  simp only [step] at taken
  split at taken
  next free =>
    obtain ⟨unlocked, idle, fresh⟩ := free
    unfold State.offerTask? at taken
    by_cases room : s.sched.taskQueue.length < s.sched.queueSize
    · rw [if_pos room] at taken
      obtain rfl := Option.some.inj taken
      have buffered : s.sched.queueSize ≠ 0 := by omega
      have sent : s.Effect (.enqueue h request uuid now waiting) _ :=
        .sent unlocked idle fresh room
      cases waiting with
      | none => exact sent
      | some w => simpa only [handOver, if_neg buffered] using sent
    · rw [if_neg room] at taken
      by_cases handsOver : s.sched.queueSize = 0
          ∧ waiting.any (fun w => decide (s.workers w = .idle)) = true
      · rw [if_pos handsOver] at taken
        obtain rfl := Option.some.inj taken
        obtain ⟨unbuffered, found⟩ := handsOver
        cases waiting with
        | none => simp at found
        | some w =>
            have waits : s.workers w = .idle := by simpa using found
            have handed : s.Effect (.enqueue h request uuid now (some w)) _ :=
              .handed unlocked idle fresh unbuffered waits
            simpa only [handOver, if_pos unbuffered] using handed
      · rw [if_neg handsOver] at taken
        obtain rfl := Option.some.inj taken
        exact .full unlocked idle fresh
  next => simp at taken

theorem step_effect (taken : s.step label = some s') : s.Effect label s' := by
  cases label with
  | enqueue h request uuid now waiting => exact enqueue_effect taken
  | insert h =>
      simp only [step] at taken
      split at taken
      next task request pc =>
        split at taken
        next locked =>
          obtain rfl := Option.some.inj taken
          exact .insert pc locked
        next => simp at taken
      next => simp at taken
  | handler h move =>
      simp only [step] at taken
      split at taken
      next => simp at taken
      next free =>
        obtain ⟨⟨sched', handler'⟩, moved, rfl⟩ := Option.map_eq_some_iff.mp taken
        have unlocked : move.locks = true → s.locked = none := by
          intro locks
          simpa [locks] using free
        have moved := Handler.moved_of_move moved
        by_cases cached : ∃ now, move = .complete now
        · obtain ⟨now, rfl⟩ := cached
          cases moved with
          | complete pc => exact .completed (unlocked rfl) pc
        · have other : ∀ now, move ≠ .complete now := fun now same => cached ⟨now, same⟩
          obtain ⟨same, before, after⟩ := moved.quiet other
          exact .quiet moved unlocked other same before after
  | dequeue w =>
      simp only [step] at taken
      split at taken
      next task sched idle removed =>
        obtain rfl := Option.some.inj taken
        obtain ⟨rest, queue, rfl⟩ := State.dequeue?_spec removed
        exact .dequeue idle queue
      next => simp at taken
  | updateState w now =>
      simp only [step] at taken
      split at taken
      next holds unlocked =>
        obtain rfl := Option.some.inj taken
        exact .updateState holds unlocked
      next => simp at taken
  | finish w outcome now =>
      simp only [step] at taken
      split at taken
      next runs unlocked =>
        obtain rfl := Option.some.inj taken
        exact .finish runs unlocked
      next => simp at taken
  | cancelOperation name now =>
      simp only [step] at taken
      split at taken
      next unlocked =>
        obtain rfl := Option.some.inj taken
        exact .cancelOperation unlocked
      next => simp at taken
  | deleteOperation name =>
      simp only [step] at taken
      split at taken
      next unlocked =>
        obtain rfl := Option.some.inj taken
        exact .deleteOperation unlocked
      next => simp at taken
  | cleanupExpired now =>
      simp only [step] at taken
      split at taken
      next unlocked =>
        obtain rfl := Option.some.inj taken
        exact .cleanupExpired unlocked
      next => simp at taken

end System

end GoREgo.Execution
