import GoREgo.Execution.Terminal

/-! The message that reports an operation never contradicts itself: its stage, its `done` flag
and its outcome all follow the record's state, and it names the task and the digest of the
`Enqueue` that created it.
A record is changed by five methods, and after a cancellation it is even run again; the
invariant speaks of one record and its task, and each method keeps it.
-/

namespace GoREgo.Execution

open Scheduler

def stageOf : OperationState → ExecutionStage
  | .queued => .queued
  | .executing => .executing
  | .completed => .completed

/-- The record is the one of this task, its stage is the one of its state, and a completed
record has an error or a response to report.
-/
structure Tells (task : Task) (op : OperationStatus) : Prop where
  name : op.name = task.name
  digest : op.metadata.actionDigest = task.actionDigest
  stage : op.metadata.stage = stageOf op.state
  answered : op.state = .completed → op.error.isSome ∨ op.result.isSome

namespace Tells

variable {task : Task} {op : OperationStatus} {now : Int}

theorem new (task : Task) : Tells task (State.newStatus task) :=
  ⟨rfl, rfl, rfl, nofun⟩

theorem started (tells : Tells task op)
    : Tells task { op with
        state := .executing, metadata := executingMetadata task, updatedAt := now } :=
  ⟨tells.name, rfl, rfl, nofun⟩

theorem completed {record : OperationStatus → OperationStatus} (tells : Tells task op)
    (name : (record op).name = op.name)
    (answered : (record op).error.isSome ∨ (record op).result.isSome)
    : Tells task (State.completed op record now) :=
  ⟨name.trans tells.name, tells.digest, rfl, fun _ => answered⟩

theorem cancelled (tells : Tells task op) : Tells task (State.cancelled now op) := by
  unfold State.cancelled
  split
  · exact tells.completed rfl (Or.inl rfl)
  · exact tells

end Tells

/-- The reported operation agrees with the record's state and with the task: stage, `done`,
exactly one of error and response when it is done and none before, digest, and name.
-/
structure Reports (task : Task) (state : OperationState) (op : Operation) : Prop where
  stage : op.metadata.stage = stageOf state
  done : op.done = true ↔ state = .completed
  outcome
    : op.done = true
      ↔ (∃ status, op.result = .error status) ∨ (∃ response, op.result = .response response)
  single
    : ¬ ((∃ status, op.result = .error status) ∧ (∃ response, op.result = .response response))
  digest : op.metadata.actionDigest = task.actionDigest
  name : op.name = "operations/" ++ task.operationID

theorem Tells.outcome {task : Task} {op : OperationStatus} (tells : Tells task op)
    : op.state = .completed
      ↔ (∃ status, State.outcome op = .error status)
        ∨ (∃ response, State.outcome op = .response response) := by
  unfold State.outcome
  constructor
  · intro completed
    rw [if_pos completed]
    cases failed : op.error with
    | some err => exact Or.inl ⟨_, rfl⟩
    | none =>
        have answered := tells.answered completed
        rw [failed] at answered
        obtain ⟨response, found⟩ := Option.isSome_iff_exists.mp (answered.resolve_left nofun)
        rw [found]
        exact Or.inr ⟨response, rfl⟩
  · intro reported
    by_contra unfinished
    rw [if_neg unfinished] at reported
    rcases reported with ⟨_, same⟩ | ⟨_, same⟩
    · cases same
    · cases same

theorem Tells.reports {task : Task} {op : OperationStatus} (tells : Tells task op)
    : Reports task op.state (State.toProto op) where
  stage := tells.stage
  done := decide_eq_true_iff
  outcome := decide_eq_true_iff.trans tells.outcome
  single := by
    rintro ⟨⟨_, failed⟩, _, answered⟩
    cases failed.symm.trans answered
  digest := tells.digest
  name := tells.name

namespace System

variable {W H : Type} {s s' : System W H} {label : Label W H}

def Told (s : System W H) : Prop :=
  ∀ ref, ref < s.sched.nextOp → ∃ task ∈ s.created, Tells task (s.sched.heap ref)

theorem Told.sameHeap (told : s.Told) (heap : s'.sched.heap = s.sched.heap)
    (nextOp : s'.sched.nextOp = s.sched.nextOp) (created : s.created ⊆ s'.created)
    : s'.Told := by
  intro ref below
  obtain ⟨task, sent, tells⟩ := told ref (nextOp ▸ below)
  exact ⟨task, created sent, heap ▸ tells⟩

theorem Told.rewrite (told : s.Told) (owned : s.Owned) {name : String}
    {change : OperationStatus → OperationStatus}
    (rewrite : s.sched.Rewrite s'.sched name change) (created : s'.created = s.created)
    (keeps
      : ∀ task ∈ s.created, ∀ op, task.name = name → Tells task op → Tells task (change op))
    : s'.Told := by
  intro ref below
  obtain ⟨task, sent, tells⟩ := told ref (rewrite.nextOp ▸ below)
  refine ⟨task, created ▸ sent, ?_⟩
  by_cases tracked : s.sched.operations.lookup name = some ref
  · rw [rewrite.here tracked]
    exact keeps task sent _ (tells.name.symm.trans (owned.wellFormed.named tracked)) tells
  · rw [rewrite.others tracked]
    exact tells

theorem Told.effect [DecidableEq W] [DecidableEq H] (told : s.Told) (owned : s.Owned)
    (effect : s.Effect label s')
    : s'.Told := by
  cases effect with
  | full | dequeue => exact told.sameHeap rfl rfl (List.Subset.refl _)
  | sent | handed => exact told.sameHeap rfl rfl (List.subset_append_left _ _)
  | quiet moved unlocked other same =>
      exact told.sameHeap same.heap same.nextOp (List.Subset.refl _)
  | @insert h task request pc locked =>
      intro ref below
      rcases Nat.lt_succ_iff_lt_or_eq.mp below with old | rfl
      · obtain ⟨task, sent, tells⟩ := told ref old
        exact ⟨task, sent, (State.heap_insertStatus_old old).symm ▸ tells⟩
      · have inside : (s.handlers h).pc.enqueues = some task := by
          rw [pc]
          rfl
        exact ⟨task, (owned.inside inside).2.2.1,
          State.heap_insertStatus_new.symm ▸ Tells.new task⟩
  | @completed h now name result unlocked pc =>
      refine told.rewrite owned (State.finish_rewrite ..) rfl ?_
      exact fun task _ op _ tells => tells.completed rfl (Or.inr rfl)
  | @updateState w now task holds unlocked =>
      refine told.rewrite owned (State.updateState_rewrite ..) rfl ?_
      intro other sent op same tells
      -- the worker's task is the only sent one of its name
      have mine := owned.handed_created (owned.holds (Or.inl holds))
      obtain rfl := owned.task_unique sent mine same
      exact tells.started
  | @finish w outcome now task runs unlocked =>
      cases outcome with
      | error err =>
          refine told.rewrite owned (State.finish_rewrite ..) rfl ?_
          exact fun task _ op _ tells => tells.completed rfl (Or.inl rfl)
      | ok result =>
          refine told.rewrite owned (State.finish_rewrite ..) rfl ?_
          exact fun task _ op _ tells => tells.completed rfl (Or.inr rfl)
  | cancelOperation unlocked =>
      refine told.rewrite owned (State.cancelOperation_rewrite ..) rfl ?_
      exact fun task _ op _ tells => tells.cancelled
  | @deleteOperation name unlocked =>
      have drops := State.deleteOperation_drops s.sched name
      exact told.sameHeap drops.heap drops.nextOp (List.Subset.refl _)
  | cleanupExpired unlocked => exact told.sameHeap rfl rfl (List.Subset.refl _)

theorem told_inductive [DecidableEq W] [DecidableEq H]
    : (machine : Lib.Machine (System W H) (Label W H)).Inductive Lib.Machine.anyStep
        (fun s => s.Owned ∧ s.Told) :=
  owned_inductive.strengthen
    (fun s initial ref below => by
      obtain ⟨queueSize, nodeID, rfl⟩ := initial
      exact (Nat.not_lt_zero ref below).elim)
    (fun _ _ _ owned told _ taken => told.effect owned (step_effect taken))

/-- In every reachable state, every tracked operation was created by exactly one `Enqueue`,
and the message that reports it agrees with its state and with the task of that `Enqueue`.
-/
theorem reported_consistent [DecidableEq W] [DecidableEq H]
    (reach : machine.Reachable Lib.Machine.anyStep s) {name : String} {ref : OpRef}
    (tracked : s.sched.operations.lookup name = some ref)
    : ∃ task ∈ s.created,
        (∀ other ∈ s.created, other.name = name → other = task)
        ∧ Reports task (s.sched.heap ref).state (State.toProto (s.sched.heap ref)) := by
  obtain ⟨owned, told⟩ := told_inductive.reachable reach
  obtain ⟨task, sent, tells⟩ := told ref (owned.wellFormed.allocated tracked)
  refine ⟨task, sent, fun other otherSent same => ?_, tells.reports⟩
  have named : task.name = name := tells.name.symm.trans (owned.wellFormed.named tracked)
  exact owned.task_unique otherSent sent (same.trans named.symm)

/-- An operation that was cancelled in the queue, run and completed all the same reports the
cancellation, and nothing else, as its outcome.
-/
theorem cancelled_then_run_consistent
    : ∃ s : System (Fin 2) (Fin 2), ∃ ref task,
        machine.Reachable Lib.Machine.anyStep s
        ∧ s.sched.operations.lookup sampleName = some ref
        ∧ Reports task .completed (State.toProto (s.sched.heap ref)) := by
  let labels : List (Label (Fin 2) (Fin 2)) :=
    enqueueOne (.execute sampleDigest false "")
      ++ [.cancelOperation sampleName 1, .dequeue 0, .updateState 0 2,
        .finish 0 (.error (.plain "exit")) 3]
  obtain ⟨s, run, tested⟩ := Lib.Machine.exists_run_of_exec machine testNode labels
    (fun s => (s.sched.operations.lookup sampleName).any
      (fun ref => (s.sched.heap ref).state = .completed)) (by decide)
  obtain ⟨ref, tracked, completed⟩ := (Option.any_eq_true _ _).mp tested
  have reach : machine.Reachable Lib.Machine.anyStep s :=
    ⟨testNode, labels, ⟨100, "test-node", rfl⟩, run⟩
  obtain ⟨task, _, _, reports⟩ := reported_consistent reach tracked
  exact ⟨s, ref, task, reach, tracked, of_decide_eq_true completed ▸ reports⟩

end System

end GoREgo.Execution
