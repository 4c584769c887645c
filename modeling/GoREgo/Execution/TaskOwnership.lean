import GoREgo.Execution.Effects

/-! Every task is in the queue or in the hands of one worker, and a queued operation still
has its task there. The queue and the operation map change in different steps, so the
argument carries the tasks sent so far and the tasks handed to workers so far.
-/

namespace GoREgo.Execution

open Scheduler

structure Advances (sched sched' : State) : Prop where
  sub
    : ∀ {name ref}, sched'.operations.lookup name = some ref
      → sched.operations.lookup name = some ref
  nextOp : sched'.nextOp = sched.nextOp
  names : ∀ ref, (sched'.heap ref).name = (sched.heap ref).name
  queued : ∀ ref, (sched'.heap ref).state = .queued → (sched.heap ref).state = .queued

structure Evolves (sched sched' : State) : Prop extends Advances sched sched' where
  taskQueue : sched'.taskQueue = sched.taskQueue
  queueSize : sched'.queueSize = sched.queueSize

theorem Advances.queue {sched : State} {taskQueue : List Task}
    : Advances sched { sched with taskQueue } :=
  ⟨fun found => found, rfl, fun _ => rfl, fun _ state => state⟩

namespace Evolves

variable {sched sched' : State} {name : String} {now : Int}

theorem of_same (same : SameRecords sched sched') : Evolves sched sched' where
  sub found := same.operations ▸ found
  nextOp := same.nextOp
  taskQueue := same.taskQueue
  queueSize := same.queueSize
  names ref := by rw [same.heap]
  queued ref state := by rwa [same.heap] at state

theorem refl (sched : State) : Evolves sched sched := of_same (.refl sched)

theorem wellFormed (evolves : Evolves sched sched') (wf : sched.WellFormed)
    : sched'.WellFormed where
  allocated found := by
    rw [evolves.nextOp]
    exact wf.allocated (evolves.sub found)
  named found := by
    rw [evolves.names]
    exact wf.named (evolves.sub found)
  distinct left right same := by
    rw [evolves.nextOp] at left right
    rw [evolves.names, evolves.names] at same
    exact wf.distinct left right same

theorem of_rewrite {change : OperationStatus → OperationStatus}
    (rewrite : sched.Rewrite sched' name change) (names : ∀ op, (change op).name = op.name)
    (queued : ∀ op, (change op).state = .queued → op.state = .queued)
    : Evolves sched sched' where
  sub found := rewrite.operations ▸ found
  nextOp := rewrite.nextOp
  taskQueue := rewrite.taskQueue
  queueSize := rewrite.queueSize
  names := rewrite.names names
  queued ref state := by
    by_cases found : sched.operations.lookup name = some ref
    · rw [rewrite.here found] at state
      exact queued _ state
    · rwa [rewrite.others found] at state

theorem of_drops (drops : sched.Drops sched') : Evolves sched sched' where
  sub := drops.sub
  nextOp := drops.nextOp
  taskQueue := drops.taskQueue
  queueSize := drops.queueSize
  names ref := by rw [drops.heap]
  queued ref state := by rwa [drops.heap] at state

theorem updateState {metadata : ExecuteOperationMetadata}
    : Evolves sched (sched.updateState name .executing metadata now) :=
  of_rewrite (State.updateState_rewrite ..) (fun _ => rfl) (fun _ state => by cases state)

theorem finish {record : OperationStatus → OperationStatus}
    (names : ∀ op, (record op).name = op.name)
    : Evolves sched (sched.finish name record now) :=
  of_rewrite (State.finish_rewrite ..) names (fun _ state => by cases state)

theorem complete {result : Option ExecuteResponse}
    : Evolves sched (sched.complete name result now) :=
  finish (fun _ => rfl)

theorem finishTask {task : Task} {outcome : Except GoError ActionResult}
    : Evolves sched (finishTask sched task outcome now) := by
  cases outcome with
  | error err => exact finish (fun _ => rfl)
  | ok result => exact complete

theorem cancelOperation : Evolves sched (sched.cancelOperation name now).1 := by
  refine of_rewrite (State.cancelOperation_rewrite ..) (State.cancelled_name now) ?_
  intro op state
  unfold State.cancelled at state
  split at state
  · cases state
  · exact state

theorem deleteOperation : Evolves sched (sched.deleteOperation name).1 :=
  of_drops (State.deleteOperation_drops ..)

theorem cleanupExpired : Evolves sched (sched.cleanupExpired now) :=
  of_drops (State.cleanupExpired_drops ..)

end Evolves

namespace System

variable {W H : Type} {s s' : System W H} {label : Label W H} {sched' : State}

theorem Effect.records [DecidableEq W] [DecidableEq H] (effect : s.Effect label s')
    : Advances s.sched s'.sched
      ∨ ∃ h task, (s.handlers h).pc.enqueues = some task
          ∧ s'.sched = s.sched.insertStatus (State.newStatus task) := by
  cases effect with
  | full | handed => exact Or.inl (Evolves.refl _).toAdvances
  | sent | dequeue => exact Or.inl .queue
  | @insert h task request pc locked =>
      refine Or.inr ⟨h, task, ?_, rfl⟩
      rw [pc]
      rfl
  | quiet moved unlocked other same => exact Or.inl (Evolves.of_same same).toAdvances
  | completed => exact Or.inl Evolves.complete.toAdvances
  | updateState => exact Or.inl Evolves.updateState.toAdvances
  | finish => exact Or.inl Evolves.finishTask.toAdvances
  | cancelOperation => exact Or.inl Evolves.cancelOperation.toAdvances
  | deleteOperation => exact Or.inl Evolves.deleteOperation.toAdvances
  | cleanupExpired => exact Or.inl Evolves.cleanupExpired.toAdvances

theorem Effect.record_kept [DecidableEq W] [DecidableEq H] (effect : s.Effect label s')
    {ref : OpRef} (below : ref < s.sched.nextOp)
    : ref < s'.sched.nextOp ∧ (s'.sched.heap ref).name = (s.sched.heap ref).name := by
  rcases effect.records with advances | ⟨h, task, _, inserted⟩
  · exact ⟨advances.nextOp ▸ below, advances.names ref⟩
  · rw [inserted, State.heap_insertStatus_old below]
    exact ⟨Nat.lt_succ_of_lt below, rfl⟩

/-- A task that no worker has started: still queued, or held before its `UpdateState`. -/
def Pending (s : System W H) (task : Task) : Prop :=
  task ∈ s.sched.taskQueue ∨ ∃ w, s.workers w = .dequeued task

/-- The tasks sent so far are the ones handed out and then the ones queued, under distinct
identifiers; records and workers only speak of sent tasks, and a queued operation's task
is pending.
-/
structure Owned (s : System W H) : Prop where
  wellFormed : s.sched.WellFormed
  named
    : ∀ {ref}, ref < s.sched.nextOp
      → ∃ task ∈ s.created, (s.sched.heap ref).name = task.name
  issued
    : ∀ task ∈ s.created,
        ∃ nodePrefix, ∃ uuid ∈ s.issued, task.operationID = operationID nodePrefix uuid
  unique : (s.created.map Task.operationID).Nodup
  fifo : s.created = s.handed.map Prod.snd ++ s.sched.taskQueue
  bound : s.sched.taskQueue.length ≤ s.sched.queueSize
  holds
    : ∀ {w task}, s.workers w = .dequeued task ∨ s.workers w = .executing task
      → (w, task) ∈ s.handed
  inside
    : ∀ {h task}, (s.handlers h).pc.enqueues = some task
      → s.locked = some h ∧ s.Pending task ∧ task ∈ s.created
        ∧ ∀ ref, ref < s.sched.nextOp → (s.sched.heap ref).name ≠ task.name
  queued
    : ∀ {name ref}, s.sched.operations.lookup name = some ref
      → (s.sched.heap ref).state = .queued
      → ∃ task ∈ s.created, task.name = name ∧ s.Pending task

theorem Owned.task_unique (owned : s.Owned) {left right : Task}
    (leftSent : left ∈ s.created) (rightSent : right ∈ s.created)
    (same : left.name = right.name)
    : left = right :=
  List.inj_on_of_nodup_map owned.unique leftSent rightSent (Task.operationID_of_name same)

variable {w : W} {task task' : Task}

theorem Owned.handed_created (owned : s.Owned) (given : (w, task) ∈ s.handed)
    : task ∈ s.created := by
  rw [owned.fifo]
  exact List.mem_append_left _ (List.mem_map.mpr ⟨(w, task), given, rfl⟩)

theorem Owned.queue_created (owned : s.Owned) (queued : task ∈ s.sched.taskQueue)
    : task ∈ s.created := by
  rw [owned.fifo]
  exact List.mem_append_right _ queued

theorem Owned.handed_once (owned : s.Owned) {w' : W} (first : (w, task) ∈ s.handed)
    (second : (w', task') ∈ s.handed) (same : task.operationID = task'.operationID)
    : (w, task) = (w', task') := by
  have unique := owned.unique
  rw [owned.fifo, List.map_append, List.map_map] at unique
  exact List.inj_on_of_nodup_map (List.nodup_append.mp unique).1 first second same

theorem Owned.queue_not_handed (owned : s.Owned) (queued : task ∈ s.sched.taskQueue)
    (given : (w, task') ∈ s.handed)
    : task.operationID ≠ task'.operationID := by
  have unique := owned.unique
  rw [owned.fifo, List.map_append, List.map_map] at unique
  have apart := (List.nodup_append.mp unique).2.2
  exact fun same => apart _ (List.mem_map.mpr ⟨(w, task'), given, rfl⟩) _
    (List.mem_map.mpr ⟨task, queued, rfl⟩) same.symm

theorem Owned.holder_unique (owned : s.Owned) {w' : W}
    (first : s.workers w = .dequeued task ∨ s.workers w = .executing task)
    (second : s.workers w' = .dequeued task' ∨ s.workers w' = .executing task')
    (same : task.name = task'.name)
    : w = w' ∧ task = task' :=
  Prod.mk.inj (owned.handed_once (owned.holds first) (owned.holds second)
    (Task.operationID_of_name same))

theorem Owned.pending_created (owned : s.Owned) (pending : s.Pending task)
    : task ∈ s.created := by
  rcases pending with queued | ⟨w, held⟩
  · exact owned.queue_created queued
  · exact owned.handed_created (owned.holds (Or.inl held))

theorem Owned.executing_not_pending (owned : s.Owned) (runs : s.workers w = .executing task)
    (pending : s.Pending task')
    : task.name ≠ task'.name := by
  intro same
  rcases pending with queued | ⟨w', held⟩
  · exact owned.queue_not_handed queued (owned.holds (Or.inr runs))
      (Task.operationID_of_name same.symm)
  · obtain ⟨rfl, rfl⟩ := owned.holder_unique (Or.inr runs) (Or.inl held) same
    rw [runs] at held
    cases held

theorem Owned.none_inside (owned : s.Owned) (unlocked : s.locked = none) (h : H)
    : (s.handlers h).pc.enqueues = none := by
  cases inside : (s.handlers h).pc.enqueues with
  | none => rfl
  | some task =>
      have locked := (owned.inside inside).1
      rw [unlocked] at locked
      cases locked

theorem owned_new (queueSize : Nat) (nodeID : String)
    : (new queueSize nodeID : System W H).Owned where
  wellFormed := State.newScheduler_wellFormed queueSize nodeID
  named below := by simp [new, newScheduler] at below
  issued task sent := by simp [new] at sent
  unique := by simp [new]
  fifo := rfl
  bound := Nat.zero_le _
  holds held := by simp [new] at held
  inside inside := by simp [new, Handler.new, Pc.enqueues] at inside
  queued tracked := by simp [new, newScheduler] at tracked

/-- Steps that only move records forward keep ownership, given that no worker gains a task
and that the tasks of operations still queued stay pending.
-/
theorem Owned.evolve (owned : s.Owned) (evolves : Evolves s.sched sched')
    (workers' : W → Worker) (handlers' : H → Handler)
    (holds
      : ∀ {w task}, workers' w = .dequeued task ∨ workers' w = .executing task
        → s.workers w = .dequeued task ∨ s.workers w = .executing task)
    (inside
      : ∀ {h task}, (handlers' h).pc.enqueues = some task
        → (s.handlers h).pc.enqueues = some task ∧ workers' = s.workers)
    (pending
      : ∀ {ref task}, sched'.operations.lookup task.name = some ref
        → (sched'.heap ref).state = .queued
        → (∃ w, s.workers w = .dequeued task)
        → ∃ w, workers' w = .dequeued task)
    : Owned { s with sched := sched', workers := workers', handlers := handlers' } where
  wellFormed := evolves.wellFormed owned.wellFormed
  named {ref} below := by
    rw [evolves.names]
    exact owned.named (evolves.nextOp ▸ below)
  issued := owned.issued
  unique := owned.unique
  fifo := by
    rw [evolves.taskQueue]
    exact owned.fifo
  bound := by
    rw [evolves.taskQueue, evolves.queueSize]
    exact owned.bound
  holds held := owned.holds (holds held)
  inside {h task} within := by
    obtain ⟨before, sameWorkers⟩ := inside within
    obtain ⟨locked, waiting, sent, fresh⟩ := owned.inside before
    refine ⟨locked, ?_, sent, ?_⟩
    · rcases waiting with queued | held
      · exact Or.inl (evolves.taskQueue ▸ queued)
      · exact Or.inr (sameWorkers ▸ held)
    · intro ref below
      rw [evolves.names]
      exact fresh ref (evolves.nextOp ▸ below)
  queued {name ref} tracked state := by
    obtain ⟨task, sent, named, waiting⟩ :=
      owned.queued (evolves.sub tracked) (evolves.queued ref state)
    subst named
    refine ⟨task, sent, rfl, ?_⟩
    rcases waiting with queued | held
    · exact Or.inl (evolves.taskQueue ▸ queued)
    · exact Or.inr (pending tracked state held)

theorem Owned.fresh_task (owned : s.Owned) {uuid : UUID} (fresh : uuid ∉ s.issued)
    (request : Request) (now : Int)
    : ∀ task ∈ s.created,
        task.operationID ≠ (request.task s.sched uuid now).operationID := by
  intro task sent same
  obtain ⟨nodePrefix, drawn, member, identifier⟩ := owned.issued task sent
  have built : ∃ nodePrefix, (request.task s.sched uuid now).operationID
      = operationID nodePrefix uuid := by
    cases request <;> exact ⟨_, rfl⟩
  obtain ⟨other, built⟩ := built
  have equal := operationID_uuid (identifier.symm.trans (same.trans built))
  exact fresh (equal ▸ member)

section Handlers

variable [DecidableEq H]

theorem Owned.move (owned : s.Owned) (evolves : Evolves s.sched sched') (h : H)
    (handler : Handler) (after : handler.pc.enqueues = none)
    : Owned { s with sched := sched', handlers := Function.update s.handlers h handler } :=
  owned.evolve evolves s.workers (Function.update s.handlers h handler) (fun held => held)
    (fun inside => ⟨(pc_update Pc.enqueues after inside).2, rfl⟩) (fun _ _ held => held)

/-- Sending a task keeps ownership, whether it enters the buffer or goes straight to a
worker: the new identifier is unused and the new task is pending.
-/
theorem Owned.admit (owned : s.Owned) {h : H} {request : Request} {uuid : UUID} {now : Int}
    (unlocked : s.locked = none) (fresh : uuid ∉ s.issued)
    {taskQueue' : List Task} {workers' : W → Worker} {handed' : List (W × Task)}
    (fifo
      : s.created ++ [request.task s.sched uuid now] = handed'.map Prod.snd ++ taskQueue')
    (bound : taskQueue'.length ≤ s.sched.queueSize)
    (holds
      : ∀ {w task}, workers' w = .dequeued task ∨ workers' w = .executing task
        → (w, task) ∈ handed')
    (waits
      : ∀ {task}, s.Pending task ∨ task = request.task s.sched uuid now
        → task ∈ taskQueue' ∨ ∃ w, workers' w = .dequeued task)
    : Owned { s with
        sched := { s.sched with taskQueue := taskQueue' }
        locked := some h
        workers := workers'
        handlers :=
          Function.update s.handlers h
            { s.handlers h with
              kind := request.kind
              pc := .enqueueing (request.task s.sched uuid now) request }
        issued := uuid :: s.issued
        created := s.created ++ [request.task s.sched uuid now]
        handed := handed' } where
  wellFormed := owned.wellFormed.of_sub (fun found => found) rfl rfl
  named below := by
    obtain ⟨task, sent, name⟩ := owned.named below
    exact ⟨task, List.mem_append_left _ sent, name⟩
  issued task sent := by
    rcases List.mem_append.mp sent with earlier | new
    · obtain ⟨nodePrefix, drawn, member, identifier⟩ := owned.issued task earlier
      exact ⟨nodePrefix, drawn, List.mem_cons_of_mem _ member, identifier⟩
    · obtain rfl := List.mem_singleton.mp new
      cases request <;> exact ⟨_, uuid, List.mem_cons_self, rfl⟩
  unique := by
    rw [List.map_append, List.nodup_append]
    refine ⟨owned.unique, List.nodup_singleton _, ?_⟩
    intro left leftIn right rightIn same
    obtain ⟨task, sent, rfl⟩ := List.mem_map.mp leftIn
    obtain rfl := List.mem_singleton.mp rightIn
    exact owned.fresh_task fresh request now task sent same
  fifo := fifo
  bound := bound
  holds := holds
  inside {other task} inside := by
    by_cases same : other = h
    · subst same
      have equal : request.task s.sched uuid now = task := by
        simpa [Pc.enqueues] using inside
      subst equal
      refine ⟨rfl, waits (Or.inr rfl), List.mem_append_right _ (List.mem_singleton.mpr rfl), ?_⟩
      intro ref below name
      obtain ⟨task, sent, named⟩ := owned.named below
      exact owned.fresh_task fresh request now task sent
        (Task.operationID_of_name (named.symm.trans name))
    · have before : (s.handlers other).pc.enqueues = some task := by
        simpa [Function.update_of_ne same] using inside
      rw [owned.none_inside unlocked other] at before
      cases before
  queued tracked state := by
    obtain ⟨task, sent, name, pending⟩ := owned.queued tracked state
    exact ⟨task, List.mem_append_left _ sent, name, waits (Or.inl pending)⟩

/-- Tracking the sent task's operation keeps ownership: its name is unused, and a worker
cannot have started the task while the mutex was held.
-/
theorem Owned.insert (owned : s.Owned) {h : H} {task : Task} {request : Request}
    (pc : (s.handlers h).pc = .enqueueing task request) (locked : s.locked = some h)
    : Owned { s with
        sched := s.sched.insertStatus (State.newStatus task)
        locked := none
        handlers :=
          Function.update s.handlers h
            { s.handlers h with pc := afterEnqueue task request } } := by
  have entered : (s.handlers h).pc.enqueues = some task := by
    rw [pc]
    rfl
  obtain ⟨_, pending, sent, fresh⟩ := owned.inside entered
  have noneInside (other : H)
      : (Function.update s.handlers h
          { s.handlers h with pc := afterEnqueue task request } other).pc.enqueues = none := by
    by_cases same : other = h
    · subst same
      cases request <;> simp [afterEnqueue, Pc.enqueues]
    · cases inside : (s.handlers other).pc.enqueues with
      | none => simpa [Function.update_of_ne same] using inside
      | some entered =>
          have holder := (owned.inside inside).1
          rw [locked] at holder
          exact (same (Option.some.inj holder).symm).elim
  exact {
    wellFormed := owned.wellFormed.insertStatus fresh
    named := by
      intro ref below
      rcases Nat.lt_succ_iff_lt_or_eq.mp below with earlier | rfl
      · dsimp only
        rw [State.heap_insertStatus_old earlier]
        exact owned.named earlier
      · refine ⟨task, sent, ?_⟩
        dsimp only
        rw [State.heap_insertStatus_new, State.newStatus_name]
    issued := owned.issued
    unique := owned.unique
    fifo := owned.fifo
    bound := owned.bound
    holds := owned.holds
    inside := by
      intro other entered inside
      rw [noneInside other] at inside
      cases inside
    queued := by
      intro name ref tracked state
      by_cases same : name = task.name
      · subst same
        exact ⟨task, sent, rfl, pending⟩
      · rw [State.lookup_insertStatus, State.newStatus_name, if_neg same] at tracked
        rw [State.heap_insertStatus_old (owned.wellFormed.allocated tracked)] at state
        exact owned.queued tracked state
  }

end Handlers

section Workers

variable [DecidableEq W]

theorem Owned.dequeue (owned : s.Owned) {w : W} {task : Task} {rest : List Task}
    (idle : s.workers w = .idle) (queue : s.sched.taskQueue = task :: rest)
    : Owned { s with
        sched := { s.sched with taskQueue := rest }
        workers := Function.update s.workers w (.dequeued task)
        handed := s.handed ++ [(w, task)] } := by
  have waits {other : Task} (pending : s.Pending other)
      : other ∈ rest ∨ ∃ w', Function.update s.workers w (.dequeued task) w' = .dequeued other := by
    rcases pending with queued | ⟨w', held⟩
    · rw [queue] at queued
      rcases List.mem_cons.mp queued with rfl | later
      · exact Or.inr ⟨w, by simp⟩
      · exact Or.inl later
    · have apart : w' ≠ w := by
        intro same
        subst same
        rw [idle] at held
        cases held
      exact Or.inr ⟨w', by simpa [Function.update_of_ne apart] using held⟩
  exact {
    wellFormed := owned.wellFormed.of_sub (fun found => found) rfl rfl
    named := owned.named
    issued := owned.issued
    unique := owned.unique
    fifo := by
      rw [owned.fifo, queue]
      simp
    bound := by
      have bound := owned.bound
      rw [queue] at bound
      exact Nat.le_of_succ_le bound
    holds := by
      intro w' other held
      by_cases same : w' = w
      · subst same
        have equal : task = other := by simpa using held
        subst equal
        simp
      · have before : s.workers w' = .dequeued other ∨ s.workers w' = .executing other := by
          simpa [Function.update_of_ne same] using held
        exact List.mem_append_left _ (owned.holds before)
    inside := by
      intro h entered inside
      obtain ⟨locked, pending, sent, fresh⟩ := owned.inside inside
      exact ⟨locked, waits pending, sent, fresh⟩
    queued := by
      intro name ref tracked state
      obtain ⟨other, sent, named, pending⟩ := owned.queued tracked state
      exact ⟨other, sent, named, waits pending⟩
  }

/-- A worker that starts its task keeps ownership: the task's operation, if it is still
tracked, has left the queue.
-/
theorem Owned.updateState (owned : s.Owned) {w : W} {task : Task} {now : Int}
    (held : s.workers w = .dequeued task) (unlocked : s.locked = none)
    : Owned { s with
        sched := s.sched.updateState task.name .executing (executingMetadata task) now
        workers := Function.update s.workers w (.executing task) } := by
  refine owned.evolve .updateState _ s.handlers ?_ ?_ ?_
  · intro w' other after
    by_cases same : w' = w
    · subst same
      have equal : task = other := by simpa using after
      subst equal
      exact Or.inl held
    · simpa [Function.update_of_ne same] using after
  · intro h entered inside
    rw [owned.none_inside unlocked h] at inside
    cases inside
  · rintro ref other tracked state ⟨w', before⟩
    by_cases same : w' = w
    · -- the task that just started: its record is now executing
      subst same
      rw [held] at before
      cases before
      have found := Evolves.updateState.sub tracked
      rw [State.updateState_tracked found] at state
      simp at state
    · exact ⟨w', by simpa [Function.update_of_ne same] using before⟩

theorem Owned.finish (owned : s.Owned) {w : W} {task : Task}
    {outcome : Except GoError ActionResult} {now : Int}
    (runs : s.workers w = .executing task) (unlocked : s.locked = none)
    : Owned { s with
        sched := finishTask s.sched task outcome now
        workers := Function.update s.workers w .idle } := by
  refine owned.evolve .finishTask _ s.handlers ?_ ?_ ?_
  · intro w' other after
    by_cases same : w' = w
    · subst same
      simp at after
    · simpa [Function.update_of_ne same] using after
  · intro h entered inside
    rw [owned.none_inside unlocked h] at inside
    cases inside
  · rintro ref other tracked state ⟨w', before⟩
    by_cases same : w' = w
    · subst same
      rw [runs] at before
      cases before
    · exact ⟨w', by simpa [Function.update_of_ne same] using before⟩

end Workers

theorem Owned.call (owned : s.Owned) (evolves : Evolves s.sched sched')
    : Owned { s with sched := sched' } :=
  owned.evolve evolves s.workers s.handlers (fun held => held)
    (fun inside => ⟨inside, rfl⟩) (fun _ _ held => held)

theorem Owned.effect [DecidableEq W] [DecidableEq H] (owned : s.Owned)
    (effect : s.Effect label s')
    : s'.Owned := by
  cases effect with
  | @full h request uuid now waiting unlocked idle fresh =>
      have moved := owned.move (.refl s.sched) h
        { s.handlers h with
          kind := request.kind, pc := .returned (some State.queueFull) } rfl
      exact { moved with
        issued := fun task sent => by
          obtain ⟨nodePrefix, drawn, member, identifier⟩ := owned.issued task sent
          exact ⟨nodePrefix, drawn, List.mem_cons_of_mem _ member, identifier⟩ }
  | @sent h request uuid now waiting unlocked idle fresh room =>
      refine owned.admit unlocked fresh ?_ ?_ owned.holds ?_
      · rw [owned.fifo, List.append_assoc]
      · rw [List.length_append]
        exact room
      · rintro task ((queued | held) | rfl)
        · exact Or.inl (List.mem_append_left _ queued)
        · exact Or.inr held
        · exact Or.inl (List.mem_append_right _ (List.mem_singleton.mpr rfl))
  | @handed h request uuid now w unlocked idle fresh unbuffered waits =>
      have empty : s.sched.taskQueue = [] := by
        have bound := owned.bound
        rw [unbuffered] at bound
        exact List.length_eq_zero_iff.mp (Nat.le_zero.mp bound)
      refine owned.admit unlocked fresh ?_ owned.bound ?_ ?_
      · rw [owned.fifo, empty]
        simp
      · intro w' task held
        by_cases same : w' = w
        · subst same
          have equal : request.task s.sched uuid now = task := by simpa using held
          subst equal
          simp
        · have before : s.workers w' = .dequeued task ∨ s.workers w' = .executing task := by
            simpa [Function.update_of_ne same] using held
          exact List.mem_append_left _ (owned.holds before)
      · rintro task ((queued | ⟨w', held⟩) | rfl)
        · exact Or.inl queued
        · have apart : w' ≠ w := by
            intro same
            subst same
            rw [waits] at held
            cases held
          exact Or.inr ⟨w', by simpa [Function.update_of_ne apart] using held⟩
        · exact Or.inr ⟨w, by simp⟩
  | insert pc locked => exact owned.insert pc locked
  | quiet moved unlocked other same before after =>
      exact owned.move (.of_same same) _ _ after.1
  | completed unlocked pc =>
      refine owned.move .complete _ _ ?_
      rfl
  | dequeue idle queue => exact owned.dequeue idle queue
  | updateState held unlocked => exact owned.updateState held unlocked
  | finish runs unlocked => exact owned.finish runs unlocked
  | cancelOperation unlocked => exact owned.call .cancelOperation
  | deleteOperation unlocked => exact owned.call .deleteOperation
  | cleanupExpired unlocked => exact owned.call .cleanupExpired

theorem owned_inductive [DecidableEq W] [DecidableEq H]
    : (machine : Lib.Machine (System W H) (Label W H)).Inductive Lib.Machine.anyStep Owned where
  start s initial := by
    obtain ⟨queueSize, nodeID, rfl⟩ := initial
    exact owned_new queueSize nodeID
  keeps s label s' owned _ taken := owned.effect (step_effect taken)

/-- An operation that waits for a worker: tracked and queued, or inside its `Enqueue`. -/
def Awaited (s : System W H) (name : String) : Prop :=
  (∃ ref, s.sched.operations.lookup name = some ref ∧ (s.sched.heap ref).state = .queued)
  ∨ ∃ h task, (s.handlers h).pc.enqueues = some task ∧ task.name = name

/-- The task has one owner: the queue holds it once and no worker does, or one worker holds
it before its `UpdateState` and the queue does not.
-/
def OneOwner (s : System W H) (task : Task) : Prop :=
  (s.sched.taskQueue.count task = 1 ∧ ∀ w, s.workers w ≠ .dequeued task)
  ∨ (task ∉ s.sched.taskQueue ∧ ∃! w, s.workers w = .dequeued task)

theorem Owned.oneOwner (owned : s.Owned) (pending : s.Pending task)
    : s.OneOwner task := by
  rcases pending with queued | ⟨w, held⟩
  · refine Or.inl ⟨?_, ?_⟩
    · have unique := owned.unique.of_map
      rw [owned.fifo] at unique
      exact List.count_eq_one_of_mem (List.nodup_append.mp unique).2.1 queued
    · intro w held
      exact owned.queue_not_handed queued (owned.holds (Or.inl held)) rfl
  · refine Or.inr ⟨?_, w, held, ?_⟩
    · intro queued
      exact owned.queue_not_handed queued (owned.holds (Or.inl held)) rfl
    · intro other otherHeld
      exact (owned.holder_unique (Or.inl otherHeld) (Or.inl held) rfl).1

theorem Owned.awaited_pending (owned : s.Owned) {name : String} (awaited : s.Awaited name)
    : ∃ task, task.name = name ∧ s.Pending task := by
  rcases awaited with ⟨ref, tracked, state⟩ | ⟨h, task, inside, rfl⟩
  · obtain ⟨task, _, name, pending⟩ := owned.queued tracked state
    exact ⟨task, name, pending⟩
  · exact ⟨task, rfl, (owned.inside inside).2.1⟩

theorem refused_enqueue [DecidableEq W] [DecidableEq H] {h : H} {request : Request}
    {uuid : UUID} {now : Int} {waiting : Option W}
    (taken : s.step (.enqueue h request uuid now waiting) = some s')
    (refused : (s'.handlers h).pc = .returned (some State.queueFull))
    : s'.sched = s.sched ∧ s'.workers = s.workers ∧ s'.created = s.created := by
  cases step_effect taken with
  | full => exact ⟨rfl, rfl, rfl⟩
  | sent => simp at refused
  | handed => simp at refused

/-- In every reachable state an awaited operation has exactly one task with one owner, no
two tasks share an identifier, a refused `Enqueue` leaves the scheduler as it was, and no
task is handed to two workers.
-/
theorem no_lost_or_duplicated_task [DecidableEq W] [DecidableEq H]
    (reach : machine.Reachable Lib.Machine.anyStep s)
    : (∀ name, s.Awaited name
        → ∃ task, task.name = name ∧ s.OneOwner task
          ∧ (∀ other, s.Pending other → other.name = name → other = task)
          ∧ ∀ w other, s.workers w = .executing other → other.name ≠ name)
      ∧ (s.created.map Task.operationID).Nodup
      ∧ (∀ h request uuid now waiting s',
          s.step (.enqueue h request uuid now waiting) = some s'
          → (s'.handlers h).pc = .returned (some State.queueFull)
          → s'.sched = s.sched ∧ s'.workers = s.workers ∧ s'.created = s.created)
      ∧ (s.handed.map (fun given => given.2.operationID)).Nodup := by
  have owned := owned_inductive.reachable reach
  refine ⟨?_, owned.unique, ?_, ?_⟩
  · intro name awaited
    obtain ⟨task, rfl, pending⟩ := owned.awaited_pending awaited
    refine ⟨task, rfl, owned.oneOwner pending, ?_, ?_⟩
    · intro other otherPending same
      exact owned.task_unique (owned.pending_created otherPending)
        (owned.pending_created pending) same
    · intro w other runs
      exact owned.executing_not_pending runs pending
  · intro h request uuid now waiting s' taken refused
    exact refused_enqueue taken refused
  · have unique := owned.unique
    rw [owned.fifo, List.map_append, List.map_map] at unique
    exact (List.nodup_append.mp unique).1

def testNode : System (Fin 2) (Fin 2) := new 100 "test-node"

/-- A worker takes the task while its operation is still inside `Enqueue`. -/
theorem dequeued_inside_enqueue
    : ∃ s : System (Fin 2) (Fin 2),
        s.workers 1 = .dequeued (Request.task (.execute sampleDigest false "")
          (newScheduler 100 "test-node") sampleUUID 0)
        ∧ s.Awaited sampleName
        ∧ ∃ task, task.name = sampleName ∧ s.OneOwner task := by
  obtain ⟨s, run, facts⟩ := Lib.Machine.exists_run_of_exec machine testNode
    [.enqueue 0 (.execute sampleDigest false "") sampleUUID 0 none, .dequeue 1]
    (fun s => s.workers 1 = .dequeued (Request.task (.execute sampleDigest false "")
        (newScheduler 100 "test-node") sampleUUID 0)
      ∧ (s.handlers 0).pc.enqueues = some (Request.task (.execute sampleDigest false "")
        (newScheduler 100 "test-node") sampleUUID 0)) (by decide)
  simp only [Bool.decide_and, Bool.and_eq_true, decide_eq_true_eq] at facts
  have awaited : s.Awaited sampleName := Or.inr ⟨0, _, facts.2, by decide⟩
  obtain ⟨task, name, owner, _⟩ :=
    (no_lost_or_duplicated_task ⟨testNode, _, ⟨100, "test-node", rfl⟩, run⟩).1 _ awaited
  exact ⟨s, facts.1, awaited, task, name, owner⟩

theorem Effect.history [DecidableEq W] [DecidableEq H] (effect : s.Effect label s')
    : s.handed <+: s'.handed ∧ s.created <+: s'.created := by
  cases effect with
  | sent => exact ⟨List.prefix_rfl, List.prefix_append ..⟩
  | handed => exact ⟨List.prefix_append .., List.prefix_append ..⟩
  | dequeue => exact ⟨List.prefix_append .., List.prefix_rfl⟩
  | full | insert | quiet | completed | updateState | finish | cancelOperation | deleteOperation
  | cleanupExpired => exact ⟨List.prefix_rfl, List.prefix_rfl⟩

/-- Tasks are handed out first come, first served. Between any two moments of a run the tasks
that were handed out, and then the ones that wait, are the ones that waited before and then the
ones that were accepted; and no more wait than the queue has room for.
-/
theorem tasks_served_in_order [DecidableEq W] [DecidableEq H] {labels : List (Label W H)}
    (reach : machine.Reachable Lib.Machine.anyStep s)
    (run : machine.Run Lib.Machine.anyStep s labels s')
    : ∃ served accepted, s'.handed = s.handed ++ served ∧ s'.created = s.created ++ accepted
        ∧ served.map Prod.snd ++ s'.sched.taskQueue = s.sched.taskQueue ++ accepted
        ∧ s'.sched.taskQueue.length ≤ s'.sched.queueSize := by
  have before := owned_inductive.reachable reach
  have after := owned_inductive.reachable (reach.after run)
  have history : s.handed <+: s'.handed ∧ s.created <+: s'.created := by
    refine run.preserves (P := fun s' => s.handed <+: s'.handed ∧ s.created <+: s'.created)
      (fun mid label s' earlier _ taken => ?_) ⟨List.prefix_rfl, List.prefix_rfl⟩
    obtain ⟨handed, created⟩ := (step_effect taken).history
    exact ⟨earlier.1.trans handed, earlier.2.trans created⟩
  obtain ⟨⟨served, handed⟩, accepted, created⟩ := history
  refine ⟨served, accepted, handed.symm, created.symm, ?_, after.bound⟩
  have same := after.fifo
  rw [← created, before.fifo, ← handed, List.map_append, List.append_assoc, List.append_assoc]
    at same
  exact (List.append_cancel_left same).symm

/-- The first of two tasks is handed out, and the second one waits. -/
theorem first_task_served
    : ∃ s served accepted,
        machine.Run Lib.Machine.anyStep testNode
          [.enqueue 0 (.execute sampleDigest false "") sampleUUID 0 none, .insert 0,
            .enqueue 1 (.execute sampleDigest false "") otherUUID 0 none, .dequeue 0] s
        ∧ s.handed.length = 1 ∧ s.handed = served ∧ s.created = accepted
        ∧ served.map Prod.snd ++ s.sched.taskQueue = accepted := by
  obtain ⟨s, run, one⟩ := Lib.Machine.exists_run_of_exec machine testNode
    [.enqueue 0 (.execute sampleDigest false "") sampleUUID 0 none, .insert 0,
      .enqueue 1 (.execute sampleDigest false "") otherUUID 0 none, .dequeue 0]
    (fun s => s.handed.length = 1) (by decide)
  obtain ⟨served, accepted, handed, created, order, -⟩ :=
    tasks_served_in_order (.start ⟨100, "test-node", rfl⟩) run
  exact ⟨s, served, accepted, run, of_decide_eq_true one, handed, created, order⟩

end System

end GoREgo.Execution
