import GoREgo.Execution.Terminal

/-! Workers run live queued work, provided that no operation is retired while its task is
pending. A cancel, a delete, an expiry and a cached answer all change the operation map
without touching the queue, and a worker does not look at the map before it executes.
-/

namespace GoREgo.Execution

open Scheduler

namespace System

variable {W H : Type} {s s' : System W H} {label : Label W H}

/-- The step retires a tracked operation: a cancel or a delete that succeeds, an expiry, or
the answer from the action cache.
-/
def Retires (s : System W H) (label : Label W H) (name : String) : Prop :=
  match label with
  | .handler h (.complete _) =>
      (s.handlers h).pc.completes = some name
      ∧ (s.sched.operations.lookup name).isSome = true
  | .cancelOperation other now =>
      other = name ∧ (s.sched.cancelOperation other now).2.isNone = true
  | .deleteOperation other =>
      other = name ∧ (s.sched.deleteOperation other).2.isNone = true
  | .cleanupExpired now => s.sched.expired now name = true
  | _ => False

def SparesPending (s : System W H) (label : Label W H) : Prop :=
  ∀ task, s.Pending task → ¬ s.Retires label task.name

instance (s : System W H) (label : Label W H) (name : String)
    : Decidable (s.Retires label name) :=
  match label with
  | .handler _ (.complete _) | .cancelOperation .. | .deleteOperation _ =>
      inferInstanceAs (Decidable (_ ∧ _))
  | .cleanupExpired _ => inferInstanceAs (Decidable (_ = _))
  | .handler _ .getOperation | .handler _ (.send _) | .handler _ .subscribe
  | .handler _ (.receive _) | .handler _ (.check _) | .handler _ .unsubscribe
  | .handler _ (.waitExecution _) | .enqueue .. | .insert _ | .dequeue _ | .updateState ..
  | .finish .. => inferInstanceAs (Decidable False)

instance [Fintype W] (s : System W H) (label : Label W H)
    : Decidable (s.SparesPending label) :=
  decidable_of_iff
    ((∀ task ∈ s.sched.taskQueue, ¬ s.Retires label task.name)
      ∧ ∀ w, (match s.workers w with
        | .dequeued task => decide (¬ s.Retires label task.name)
        | _ => true) = true)
    (by
      constructor
      · rintro ⟨queue, workers⟩ task (queued | ⟨w, held⟩)
        · exact queue task queued
        · have spared := workers w
          rw [held] at spared
          exact of_decide_eq_true spared
      · intro spares
        refine ⟨fun task queued => spares task (Or.inl queued), fun w => ?_⟩
        cases held : s.workers w with
        | idle => rfl
        | dequeued task => exact decide_eq_true (spares task (Or.inr ⟨w, held⟩))
        | executing task => rfl)

def Live (s : System W H) (task : Task) : Prop :=
  (∃ h, (s.handlers h).pc.enqueues = some task)
  ∨ ∃ ref, s.sched.operations.lookup task.name = some ref
      ∧ (s.sched.heap ref).state = .queued

theorem Retires.tracked {name : String} (retires : s.Retires label name)
    : ∃ ref, s.sched.operations.lookup name = some ref := by
  apply Option.isSome_iff_exists.mp
  unfold Retires at retires
  split at retires
  · exact retires.2
  · obtain ⟨same, success⟩ := retires
    rw [same] at success
    cases found : s.sched.operations.lookup name with
    | none => simp [State.cancelOperation, found] at success
    | some ref => rfl
  · obtain ⟨same, success⟩ := retires
    rw [same] at success
    cases found : s.sched.operations.lookup name with
    | none => simp [State.deleteOperation, found] at success
    | some ref => rfl
  · exact AList.lookup_isSome.mpr (State.mem_keys_of_expired retires)
  · exact retires.elim

theorem started_not_pending [DecidableEq W] (owned : s.Owned) {w : W} {task : Task} {now : Int}
    (held : s.workers w = .dequeued task) (unlocked : s.locked = none)
    : ¬ Pending { s with
        sched := s.sched.updateState task.name .executing (executingMetadata task) now
        workers := Function.update s.workers w (.executing task) } task := by
  intro pending
  have runs : Function.update s.workers w (.executing task) w = .executing task :=
    Function.update_self ..
  exact (owned.updateState held unlocked).executing_not_pending runs pending rfl

section Steps

variable [DecidableEq W] [DecidableEq H]

variable {task : Task} {ref : OpRef}

/-- A pending task was pending before the step, or the step sent it: then it is inside its
`Enqueue` and no task sent before shares its name.
-/
theorem Effect.pending (effect : s.Effect label s') (owned : s.Owned) (pending : s'.Pending task)
    : s.Pending task
      ∨ (s'.Live task ∧ ∀ older ∈ s.created, older.name ≠ task.name) := by
  have fresh {uuid : UUID} (new : uuid ∉ s.issued) (request : Request) (now : Int)
      (older : Task) (sent : older ∈ s.created)
      : older.name ≠ (request.task s.sched uuid now).name :=
    fun same => owned.fresh_task new request now older sent (Task.operationID_of_name same)
  have dequeued {w : W} {given : Task}
      (held : ∃ other, Function.update s.workers w (.dequeued given) other = .dequeued task)
      : task = given ∨ s.Pending task := by
    obtain ⟨other, held⟩ := held
    rcases Lib.update_cases id held with ⟨_, equal⟩ | ⟨_, before⟩
    · cases equal
      exact Or.inl rfl
    · exact Or.inr (Or.inr ⟨other, before⟩)
  have released {w : W} {worker : Worker} (after : ∀ task, worker ≠ .dequeued task)
      (held : ∃ other, Function.update s.workers w worker other = .dequeued task)
      : s.Pending task := by
    obtain ⟨other, held⟩ := held
    rcases Lib.update_cases id held with ⟨_, equal⟩ | ⟨_, before⟩
    · exact (after task equal).elim
    · exact Or.inr ⟨other, before⟩
  cases effect with
  | full | insert => exact Or.inl pending
  | @sent h request uuid now waiting unlocked idle new room =>
      rcases pending with queued | held
      · rcases List.mem_append.mp queued with earlier | last
        · exact Or.inl (Or.inl earlier)
        · obtain rfl := List.mem_singleton.mp last
          exact Or.inr ⟨Or.inl ⟨h, by simp [Pc.enqueues]⟩, fresh new request now⟩
      · exact Or.inl (Or.inr held)
  | @handed h request uuid now w unlocked idle new unbuffered waits =>
      rcases pending with queued | held
      · exact Or.inl (Or.inl queued)
      · rcases dequeued held with rfl | before
        · exact Or.inr ⟨Or.inl ⟨h, by simp [Pc.enqueues]⟩, fresh new request now⟩
        · exact Or.inl before
  | quiet moved unlocked other same before after =>
      exact Or.inl (pending.imp (fun queued => same.taskQueue ▸ queued) (fun held => held))
  | completed unlocked pc =>
      exact Or.inl (pending.imp (fun queued => by rwa [Evolves.complete.taskQueue] at queued)
        (fun held => held))
  | @dequeue w given rest idle queue =>
      rcases pending with queued | held
      · refine Or.inl (Or.inl ?_)
        rw [queue]
        exact List.mem_cons_of_mem _ queued
      · rcases dequeued held with rfl | before
        · refine Or.inl (Or.inl ?_)
          rw [queue]
          exact List.mem_cons_self
        · exact Or.inl before
  | updateState held unlocked =>
      rcases pending with queued | held
      · exact Or.inl (Or.inl (by rwa [Evolves.updateState.taskQueue] at queued))
      · exact Or.inl (released (by simp) held)
  | finish runs unlocked =>
      rcases pending with queued | held
      · exact Or.inl (Or.inl (by rwa [Evolves.finishTask.taskQueue] at queued))
      · exact Or.inl (released (by simp) held)
  | cancelOperation unlocked =>
      exact Or.inl (pending.imp
        (fun queued => by rwa [Evolves.cancelOperation.taskQueue] at queued)
        (fun held => held))
  | deleteOperation unlocked =>
      exact Or.inl (pending.imp
        (fun queued => by rwa [Evolves.deleteOperation.taskQueue] at queued)
        (fun held => held))
  | cleanupExpired unlocked => exact Or.inl pending

theorem Live.of_inside (effect : s.Effect label s') (owned : s.Owned) {h : H}
    (inside : (s.handlers h).pc.enqueues = some task)
    : s'.Live task := by
  have locked := (owned.inside inside).1
  cases effect with
  | @insert other started request pc holder =>
      obtain rfl := Option.some.inj (holder.symm.trans locked)
      rw [pc] at inside
      obtain rfl := Option.some.inj inside
      refine Or.inr ⟨s.sched.nextOp, ?_, ?_⟩
      · rw [State.lookup_insertStatus, State.newStatus_name, if_pos rfl]
      · dsimp only
        rw [State.heap_insertStatus_new]
        rfl
  | @quiet other move sched' handler' moved unlocked ordinary same before after =>
      have apart : h ≠ other := by
        intro same
        rw [same, before.1] at inside
        cases inside
      exact Or.inl ⟨h, by simpa [Function.update_of_ne apart] using inside⟩
  | dequeue idle queue => exact Or.inl ⟨h, inside⟩
  | full unlocked | sent unlocked | handed unlocked | completed unlocked
  | updateState _ unlocked | finish _ unlocked | cancelOperation unlocked
  | deleteOperation unlocked | cleanupExpired unlocked =>
      rw [unlocked] at locked
      cases locked

theorem Live.of_queued (effect : s.Effect label s') (owned : s.Owned) (pending : s.Pending task)
    (pending' : s'.Pending task) (spared : ¬ s.Retires label task.name)
    (tracked : s.sched.operations.lookup task.name = some ref)
    (state : (s.sched.heap ref).state = .queued)
    : s'.Live task := by
  have rewritten {sched' : State} {name : String} {change : OperationStatus → OperationStatus}
      (rewrite : s.sched.Rewrite sched' name change) (apart : task.name ≠ name)
      : sched'.operations.lookup task.name = some ref
        ∧ (sched'.heap ref).state = .queued := by
    rw [rewrite.operations, rewrite.apart owned.wellFormed tracked apart]
    exact ⟨tracked, state⟩
  refine Or.inr ⟨ref, ?_⟩
  cases effect with
  | full | sent | handed | dequeue => exact ⟨tracked, state⟩
  | @insert h started request pc locked =>
      have below := owned.wellFormed.allocated tracked
      have entered : (s.handlers h).pc.enqueues = some started := by
        rw [pc]
        rfl
      have apart : task.name ≠ started.name := by
        rw [← owned.wellFormed.named tracked]
        exact (owned.inside entered).2.2.2 ref below
      dsimp only
      rw [State.lookup_insertStatus, State.newStatus_name, if_neg apart,
        State.heap_insertStatus_old below]
      exact ⟨tracked, state⟩
  | quiet moved unlocked other same before after =>
      dsimp only
      rw [same.operations, same.heap]
      exact ⟨tracked, state⟩
  | @completed h now name result unlocked pc =>
      refine rewritten (State.finish_rewrite ..) (fun same => spared ?_)
      exact ⟨by rw [pc, same]; rfl, by rw [tracked]; rfl⟩
  | @updateState w now started held unlocked =>
      refine rewritten (State.updateState_rewrite ..) (fun same => ?_)
      obtain rfl := owned.task_unique (owned.pending_created pending)
        (owned.handed_created (owned.holds (Or.inl held))) same
      exact started_not_pending owned held unlocked pending'
  | @finish w outcome now finished runs unlocked =>
      obtain ⟨record, rewrite⟩ := finishTask_rewrite s.sched finished outcome now
      exact rewritten rewrite (owned.executing_not_pending runs pending).symm
  | @cancelOperation name now unlocked =>
      refine rewritten (State.cancelOperation_rewrite ..) (fun same => spared ?_)
      subst same
      refine ⟨rfl, ?_⟩
      rw [State.cancelOperation_queued tracked state]
      rfl
  | @deleteOperation name unlocked =>
      have apart : task.name ≠ name := by
        intro same
        subst same
        exact spared ⟨rfl, by simp [State.deleteOperation, tracked]⟩
      rw [State.lookup_deleteOperation, if_neg apart, (State.deleteOperation_drops ..).heap]
      exact ⟨tracked, state⟩
  | @cleanupExpired now unlocked =>
      have kept : ¬ s.sched.expired now task.name = true := spared
      rw [State.lookup_cleanupExpired, if_neg kept]
      exact ⟨tracked, state⟩

theorem live_inductive
    : (machine : Lib.Machine (System W H) (Label W H)).Inductive SparesPending
        (fun s => s.Owned ∧ ∀ task, s.Pending task → s.Live task) := by
  refine owned_inductive.restrict.strengthen ?_ ?_
  · rintro s ⟨queueSize, nodeID, rfl⟩ task (queued | ⟨w, held⟩)
    · cases queued
    · cases held
  · intro s label s' owned live spares taken task pending'
    have effect := step_effect taken
    rcases effect.pending owned pending' with pending | ⟨sent, _⟩
    · rcases live task pending with ⟨h, inside⟩ | ⟨ref, tracked, state⟩
      · exact .of_inside effect owned inside
      · exact .of_queued effect owned pending pending' (spares task pending) tracked state
    · exact sent

theorem Effect.not_pending (effect : s.Effect label s') (owned : s.Owned)
    (below : ref < s.sched.nextOp)
    (idle : ∀ task, s.Pending task → task.name ≠ (s.sched.heap ref).name) (task : Task)
    (pending : s'.Pending task)
    : task.name ≠ (s.sched.heap ref).name := by
  rcases effect.pending owned pending with before | ⟨_, fresh⟩
  · exact idle task before
  · obtain ⟨older, sent, named⟩ := owned.named below
    intro same
    exact fresh older sent (named.symm.trans same.symm)

/-- A known name without a pending task never gets one again, by induction over the run.
-/
theorem run_not_pending {labels : List (Label W H)} (run : machine.Run SparesPending s labels s')
    (owned : s.Owned) (below : ref < s.sched.nextOp)
    (idle : ∀ task, s.Pending task → task.name ≠ (s.sched.heap ref).name)
    : ∀ task, s'.Pending task → task.name ≠ (s.sched.heap ref).name := by
  induction run with
  | nil s => exact idle
  | cons spares taken later ih =>
      have effect := step_effect taken
      obtain ⟨kept, sameName⟩ := effect.record_kept below
      rw [← sameName]
      refine ih (owned.effect effect) kept ?_
      rw [sameName]
      exact effect.not_pending owned below idle

/-- In every run that retires no operation with a pending task, a worker that takes the step
to executing finds its operation tracked and queued, and once an operation is retired no
worker takes that step for it.
-/
theorem starts_live_work (reach : machine.Reachable SparesPending s)
    : (∀ w now s', s.step (.updateState w now) = some s'
        → ∃ task op, s.workers w = .dequeued task ∧ s'.workers w = .executing task
          ∧ s.sched.status? task.name = some op ∧ op.state = .queued)
      ∧ ∀ label name mid labels s',
          s.Retires label name
          → s.SparesPending label
          → s.step label = some mid
          → machine.Run SparesPending mid labels s'
          → ∀ w now later, s'.step (.updateState w now) = some later
          → ∃ task, s'.workers w = .dequeued task ∧ task.name ≠ name := by
  obtain ⟨owned, live⟩ := live_inductive.reachable reach
  refine ⟨?_, ?_⟩
  · intro w now s' taken
    cases step_effect taken with
    | @updateState w now task held unlocked =>
        refine ⟨task, ?_⟩
        rcases live task (Or.inr ⟨w, held⟩) with ⟨h, inside⟩ | ⟨ref, tracked, state⟩
        · rw [owned.none_inside unlocked] at inside
          cases inside
        · refine ⟨s.sched.heap ref, held, Function.update_self .., ?_, state⟩
          rw [State.status?, tracked]
          rfl
  · intro label name mid labels s' retires spares retired run w now later taken
    obtain ⟨ref, tracked⟩ := retires.tracked
    have effect := step_effect retired
    have below := owned.wellFormed.allocated tracked
    have named := owned.wellFormed.named tracked
    obtain ⟨kept, sameName⟩ := effect.record_kept below
    have idle := run_not_pending run (owned.effect effect) kept ?_
    · cases step_effect taken with
      | @updateState w now task held unlocked =>
          refine ⟨task, held, ?_⟩
          rw [← named, ← sameName]
          exact idle task (Or.inr ⟨w, held⟩)
    · rw [sameName]
      refine effect.not_pending owned below ?_
      rw [named]
      intro task before same
      exact spares task before (same ▸ retires)

end Steps

/-- A worker starts the operation that it dequeued right after its `Enqueue`. -/
theorem dequeued_starts_queued
    : ∃ s s' : System (Fin 2) (Fin 2), ∃ task op,
        machine.Reachable SparesPending s ∧ s.step (.updateState 1 1) = some s'
        ∧ s'.workers 1 = .executing task
        ∧ s.sched.status? task.name = some op ∧ op.state = .queued := by
  let labels : List (Label (Fin 2) (Fin 2)) :=
    enqueueOne (.execute sampleDigest false "") ++ [.dequeue 1]
  obtain ⟨s, run, enabled⟩ := Lib.Machine.exists_run_of_execIf machine SparesPending testNode
    labels (fun s => (s.step (.updateState 1 1)).isSome) (by decide)
  obtain ⟨s', taken⟩ := Option.isSome_iff_exists.mp enabled
  have reach : machine.Reachable SparesPending s :=
    ⟨testNode, labels, ⟨100, "test-node", rfl⟩, run⟩
  obtain ⟨task, op, _, runs, status, queued⟩ := (starts_live_work reach).1 1 1 s' taken
  exact ⟨s, s', task, op, reach, taken, runs, status, queued⟩

/-- A worker starts an operation whose cancellation succeeded before. -/
theorem cancelled_starts
    : ¬ ∀ (s : System (Fin 2) (Fin 2)) w now s',
        machine.Reachable Lib.Machine.anyStep s
        → s.step (.updateState w now) = some s'
        → ∃ task op, s.workers w = .dequeued task
            ∧ s.sched.status? task.name = some op ∧ op.state = .queued := by
  intro always
  let labels : List (Label (Fin 2) (Fin 2)) :=
    enqueueOne (.execute sampleDigest false "")
      ++ [.cancelOperation sampleName 1, .dequeue 1]
  obtain ⟨s, run, tested⟩ := Lib.Machine.exists_run_of_exec machine testNode labels
    (fun s => (s.step (.updateState 1 2)).isSome
      && (match s.workers 1 with
        | .dequeued task =>
            (s.sched.status? task.name).all (fun op => op.state = .completed)
        | _ => false)) (by decide)
  obtain ⟨enabled, retired⟩ := (Bool.and_eq_true _ _).mp tested
  obtain ⟨s', taken⟩ := Option.isSome_iff_exists.mp enabled
  obtain ⟨task, op, held, status, queued⟩ :=
    always s 1 2 s' ⟨testNode, labels, ⟨100, "test-node", rfl⟩, run⟩ taken
  simp only [held, status, Option.all_some, queued, decide_eq_true_eq] at retired
  cases retired

end System

end GoREgo.Execution
