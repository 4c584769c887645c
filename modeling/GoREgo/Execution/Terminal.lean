import GoREgo.Execution.TaskOwnership
import Mathlib.Data.Fintype.Basic

/-! A completed operation keeps its state and its outcome while it is tracked, provided
that workers only start operations which are still queued and not about to be answered
from the action cache. `UpdateState`, `Complete` and `Fail` do not look at the state they
overwrite, so the argument is about who can still call them.
-/

namespace GoREgo.Execution

open Scheduler

def Answerable (op : OperationStatus) : Prop :=
  op.state = .queued ∨ (op.state = .completed ∧ op.error.isSome = true)

theorem Answerable.cancelled {op : OperationStatus} (answerable : Answerable op) (now : Int)
    : Answerable (State.cancelled now op) := by
  unfold State.cancelled
  split
  · exact Or.inr ⟨rfl, rfl⟩
  · exact answerable

theorem outcome_completed {op : OperationStatus} {response : Option ExecuteResponse}
    {now : Int} (done : op.state = .completed) (failed : op.error.isSome = true)
    : State.outcome (State.completed op (fun op => { op with result := response }) now)
      = State.outcome op := by
  obtain ⟨err, error⟩ := Option.isSome_iff_exists.mp failed
  simp [State.outcome, State.completed, done, error]

namespace System

variable {W H : Type} {s s' : System W H} {label : Label W H} {sched' : State}

/-- Each tracked operation has at most one party that can still overwrite its outcome: the
worker that executes it, or the handler that answers it from the cache.
-/
structure Exclusive (s : System W H) : Prop where
  executing
    : ∀ {w task ref}, s.workers w = .executing task
      → s.sched.operations.lookup task.name = some ref
      → (s.sched.heap ref).state = .executing
  answerable
    : ∀ {h name ref}, (s.handlers h).pc.completes = some name
      → s.sched.operations.lookup name = some ref
      → Answerable (s.sched.heap ref)
  apart
    : ∀ {h name w task}, (s.handlers h).pc.completes = some name
      → s.workers w = .executing task
      → task.name ≠ name
  single
    : ∀ {h h' name}, (s.handlers h).pc.completes = some name
      → (s.handlers h').pc.completes = some name
      → h = h'
  known
    : ∀ {h name}, (s.handlers h).pc.completes = some name
      → ∃ ref, ref < s.sched.nextOp ∧ (s.sched.heap ref).name = name

theorem exclusive_new (queueSize : Nat) (nodeID : String)
    : (new queueSize nodeID : System W H).Exclusive where
  executing runs := by cases runs
  answerable completes := by cases completes
  apart completes := by cases completes
  single completes := by cases completes
  known completes := by cases completes

theorem Exclusive.carry (exclusive : s.Exclusive) (advances : Advances s.sched s'.sched)
    (workers
      : ∀ {w task}, s'.workers w = .executing task → s.workers w = .executing task)
    (handlers
      : ∀ {h name}, (s'.handlers h).pc.completes = some name
        → (s.handlers h).pc.completes = some name)
    (executing
      : ∀ {w task ref}, s'.workers w = .executing task
        → s.sched.operations.lookup task.name = some ref
        → (s.sched.heap ref).state = .executing
        → (s'.sched.heap ref).state = .executing)
    (answerable
      : ∀ {h name ref}, (s'.handlers h).pc.completes = some name
        → s.sched.operations.lookup name = some ref
        → Answerable (s.sched.heap ref)
        → Answerable (s'.sched.heap ref))
    : s'.Exclusive where
  executing runs tracked := by
    have before := advances.sub tracked
    exact executing runs before (exclusive.executing (workers runs) before)
  answerable completes tracked := by
    have before := advances.sub tracked
    exact answerable completes before (exclusive.answerable (handlers completes) before)
  apart completes runs := exclusive.apart (handlers completes) (workers runs)
  single left right := exclusive.single (handlers left) (handlers right)
  known completes := by
    obtain ⟨ref, below, name⟩ := exclusive.known (handlers completes)
    exact ⟨ref, advances.nextOp ▸ below, (advances.names ref).trans name⟩

theorem Exclusive.sameHeap (exclusive : s.Exclusive) (advances : Advances s.sched s'.sched)
    (heap : s'.sched.heap = s.sched.heap)
    (workers
      : ∀ {w task}, s'.workers w = .executing task → s.workers w = .executing task)
    (handlers
      : ∀ {h name}, (s'.handlers h).pc.completes = some name
        → (s.handlers h).pc.completes = some name)
    : s'.Exclusive := by
  refine exclusive.carry advances workers handlers ?_ ?_
  · intro w task ref _ _ state
    rwa [heap]
  · intro h name ref _ _ answerable
    rwa [heap]

variable {w : W} {task : Task} {now : Int} {ref : OpRef}

theorem executing_update [DecidableEq W] {other : W} {worker : Worker}
    (after : ∀ task, worker ≠ .executing task)
    (runs : Function.update s.workers w worker other = .executing task)
    : other ≠ w ∧ s.workers other = .executing task := by
  by_cases same : other = w
  · subst same
    rw [Function.update_self] at runs
    exact (after task runs).elim
  · exact ⟨same, by simpa [Function.update_of_ne same] using runs⟩

/-- A worker starts its task only while the operation, if tracked, is queued and no handler
is about to answer it from the cache. Other steps are free.
-/
def StartsQueued (s : System W H) : Label W H → Prop
  | .updateState w _ =>
      match s.workers w with
      | .dequeued task =>
          (s.sched.status? task.name).all (fun op => op.state = .queued) = true
          ∧ ∀ h, (s.handlers h).pc.completes ≠ some task.name
      | _ => True
  | _ => True

instance [Fintype H] (s : System W H) (label : Label W H)
    : Decidable (s.StartsQueued label) :=
  match label with
  | .updateState w _ => by
      dsimp only [StartsQueued]
      generalize s.workers w = worker
      exact match worker with
        | .dequeued _ => inferInstanceAs (Decidable (_ ∧ _))
        | .idle | .executing _ => inferInstanceAs (Decidable True)
  | .enqueue .. | .insert _ | .handler .. | .dequeue _ | .finish .. | .cancelOperation ..
  | .deleteOperation _ | .cleanupExpired _ => inferInstanceAs (Decidable True)

theorem StartsQueued.queued (starts : s.StartsQueued (.updateState w now))
    (held : s.workers w = .dequeued task) (tracked : s.sched.operations.lookup task.name = some ref)
    : (s.sched.heap ref).state = .queued := by
  simp only [StartsQueued, held, State.status?, tracked, Option.map_some, Option.all_some,
    decide_eq_true_eq] at starts
  exact starts.1

theorem StartsQueued.unanswered {h : H} {name : String}
    (starts : s.StartsQueued (.updateState w now)) (held : s.workers w = .dequeued task)
    (completes : (s.handlers h).pc.completes = some name)
    : task.name ≠ name := by
  simp only [StartsQueued, held] at starts
  intro same
  exact starts.2 h (same ▸ completes)

theorem Exclusive.insert [DecidableEq H] (exclusive : s.Exclusive) (owned : s.Owned) {h : H}
    {request : Request} (pc : (s.handlers h).pc = .enqueueing task request)
    : Exclusive { s with
        sched := s.sched.insertStatus (State.newStatus task)
        locked := none
        handlers :=
          Function.update s.handlers h
            { s.handlers h with pc := afterEnqueue task request } } := by
  have entered : (s.handlers h).pc.enqueues = some task := by
    rw [pc]
    rfl
  obtain ⟨_, pending, _, fresh⟩ := owned.inside entered
  -- a handler that answers from the cache is this one, or an earlier one with another name
  have handlers {other : H} {name : String}
      (completes
        : (Function.update s.handlers h
            { s.handlers h with pc := afterEnqueue task request } other).pc.completes
          = some name)
      : (other = h ∧ name = task.name)
        ∨ ((s.handlers other).pc.completes = some name ∧ name ≠ task.name) := by
    by_cases same : other = h
    · subst same
      cases request with
      | cached digest result =>
          have named : task.name = name := by
            simpa [afterEnqueue, Pc.completes] using completes
          exact Or.inl ⟨rfl, named.symm⟩
      | execute digest skip origin => simp [afterEnqueue, Pc.completes] at completes
    · have before : (s.handlers other).pc.completes = some name := by
        simpa [Function.update_of_ne same] using completes
      obtain ⟨ref, below, named⟩ := exclusive.known before
      exact Or.inr ⟨before, fun equal => fresh ref below (named.trans equal)⟩
  have runsOther {w : W} {other : Task} (runs : s.workers w = .executing other)
      : other.name ≠ task.name :=
    owned.executing_not_pending runs pending
  have older {name : String} {ref : OpRef} (apart : name ≠ task.name)
      (tracked
        : (s.sched.insertStatus (State.newStatus task)).operations.lookup name = some ref)
      : s.sched.operations.lookup name = some ref
        ∧ (s.sched.insertStatus (State.newStatus task)).heap ref = s.sched.heap ref := by
    rw [State.lookup_insertStatus, State.newStatus_name, if_neg apart] at tracked
    exact ⟨tracked, State.heap_insertStatus_old (owned.wellFormed.allocated tracked)⟩
  refine ⟨?_, ?_, ?_, ?_, ?_⟩
  · intro w other ref runs tracked
    obtain ⟨before, heap⟩ := older (runsOther runs) tracked
    dsimp only
    rw [heap]
    exact exclusive.executing runs before
  · intro other name ref completes tracked
    rcases handlers completes with ⟨_, rfl⟩ | ⟨before, apart⟩
    · rw [State.lookup_insertStatus, State.newStatus_name, if_pos rfl] at tracked
      obtain rfl := Option.some.inj tracked
      exact Or.inl (by rw [State.heap_insertStatus_new]; rfl)
    · obtain ⟨tracked, heap⟩ := older apart tracked
      dsimp only
      rw [heap]
      exact exclusive.answerable before tracked
  · intro other name w running completes runs
    rcases handlers completes with ⟨_, rfl⟩ | ⟨before, _⟩
    · exact runsOther runs
    · exact exclusive.apart before runs
  · intro left right name leftCompletes rightCompletes
    rcases handlers leftCompletes with ⟨rfl, named⟩ | ⟨leftBefore, apart⟩
    · rcases handlers rightCompletes with ⟨rfl, _⟩ | ⟨_, apart⟩
      · rfl
      · exact (apart named).elim
    · rcases handlers rightCompletes with ⟨_, named⟩ | ⟨rightBefore, _⟩
      · exact (apart named).elim
      · exact exclusive.single leftBefore rightBefore
  · intro other name completes
    rcases handlers completes with ⟨_, rfl⟩ | ⟨before, _⟩
    · refine ⟨s.sched.nextOp, Nat.lt_succ_self _, ?_⟩
      dsimp only
      rw [State.heap_insertStatus_new, State.newStatus_name]
    · obtain ⟨ref, below, named⟩ := exclusive.known before
      refine ⟨ref, Nat.lt_succ_of_lt below, ?_⟩
      dsimp only
      rw [State.heap_insertStatus_old below]
      exact named

theorem Exclusive.updateState [DecidableEq W] (exclusive : s.Exclusive) (owned : s.Owned)
    (held : s.workers w = .dequeued task) (starts : s.StartsQueued (.updateState w now))
    : Exclusive { s with
        sched := s.sched.updateState task.name .executing (executingMetadata task) now
        workers := Function.update s.workers w (.executing task) } := by
  have rewrite :=
    State.updateState_rewrite s.sched task.name .executing (executingMetadata task) now
  have running {other : W} {started : Task}
      (runs : Function.update s.workers w (.executing task) other = .executing started)
      : started = task ∨ (s.workers other = .executing started ∧ started.name ≠ task.name) := by
    by_cases same : other = w
    · subst same
      have equal : task = started := by simpa using runs
      exact Or.inl equal.symm
    · have before : s.workers other = .executing started := by
        simpa [Function.update_of_ne same] using runs
      refine Or.inr ⟨before, fun equal => same ?_⟩
      exact (owned.holder_unique (Or.inr before) (Or.inl held) equal).1
  refine ⟨?_, ?_, ?_, exclusive.single, ?_⟩
  · intro other started ref runs tracked
    rw [rewrite.operations] at tracked
    rcases running runs with rfl | ⟨before, apart⟩
    · rw [rewrite.here tracked]
    · rw [rewrite.apart owned.wellFormed tracked apart]
      exact exclusive.executing before tracked
  · intro h name ref completes tracked
    rw [rewrite.operations] at tracked
    have apart := (starts.unanswered held completes).symm
    rw [rewrite.apart owned.wellFormed tracked apart]
    exact exclusive.answerable completes tracked
  · intro h name other started completes runs
    rcases running runs with rfl | ⟨before, _⟩
    · exact starts.unanswered held completes
    · exact exclusive.apart completes before
  · intro h name completes
    obtain ⟨ref, below, named⟩ := exclusive.known completes
    refine ⟨ref, rewrite.nextOp ▸ below, ?_⟩
    rw [rewrite.names (fun _ => rfl)]
    exact named

theorem Exclusive.rewrite (exclusive : s.Exclusive) (owned : s.Owned) {name : String}
    {change : OperationStatus → OperationStatus}
    (rewrite : s.sched.Rewrite s'.sched name change)
    (advances : Advances s.sched s'.sched)
    (workers
      : ∀ {w task}, s'.workers w = .executing task
        → s.workers w = .executing task ∧ task.name ≠ name)
    (handlers
      : ∀ {h other}, (s'.handlers h).pc.completes = some other
        → (s.handlers h).pc.completes = some other ∧ other ≠ name)
    : s'.Exclusive := by
  refine exclusive.carry advances (fun runs => (workers runs).1)
    (fun completes => (handlers completes).1) ?_ ?_
  · intro w task ref runs tracked state
    rwa [rewrite.apart owned.wellFormed tracked (workers runs).2]
  · intro h other ref completes tracked answerable
    rwa [rewrite.apart owned.wellFormed tracked (handlers completes).2]

theorem finishTask_rewrite (sched : State) (task : Task)
    (outcome : Except GoError ActionResult) (now : Int)
    : ∃ record, sched.Rewrite (finishTask sched task outcome now) task.name
        (fun op => State.completed op record now) := by
  cases outcome with
  | error err => exact ⟨_, State.finish_rewrite ..⟩
  | ok result => exact ⟨_, State.finish_rewrite ..⟩

theorem Exclusive.effect [DecidableEq W] [DecidableEq H] (exclusive : s.Exclusive)
    (owned : s.Owned) (starts : s.StartsQueued label) (effect : s.Effect label s')
    : s'.Exclusive := by
  cases effect with
  | full unlocked idle fresh =>
      exact exclusive.sameHeap (Evolves.refl _).toAdvances rfl (fun runs => runs)
        (fun completes => (pc_update Pc.completes rfl completes).2)
  | sent unlocked idle fresh room =>
      exact exclusive.sameHeap .queue rfl (fun runs => runs)
        (fun completes => (pc_update Pc.completes rfl completes).2)
  | handed unlocked idle fresh unbuffered waits =>
      exact exclusive.sameHeap (Evolves.refl _).toAdvances rfl
        (fun runs => (executing_update (by simp) runs).2)
        (fun completes => (pc_update Pc.completes rfl completes).2)
  | insert pc locked => exact exclusive.insert owned pc
  | quiet moved unlocked other same before after =>
      exact exclusive.sameHeap (Evolves.of_same same).toAdvances same.heap
        (fun runs => runs) (fun completes => (pc_update Pc.completes after.2 completes).2)
  | @completed h now name result unlocked pc =>
      have here : (s.handlers h).pc.completes = some name := by
        rw [pc]
        rfl
      refine exclusive.rewrite owned (State.finish_rewrite ..) Evolves.complete.toAdvances ?_ ?_
      · intro w task runs
        exact ⟨runs, exclusive.apart here runs⟩
      · intro other answered completes
        obtain ⟨apart, before⟩ := pc_update Pc.completes rfl completes
        refine ⟨before, fun same => apart ?_⟩
        exact exclusive.single before (same ▸ here)
  | dequeue idle queue =>
      exact exclusive.sameHeap .queue rfl
        (fun runs => (executing_update (by simp) runs).2) (fun completes => completes)
  | updateState held unlocked => exact exclusive.updateState owned held starts
  | @finish w outcome now task runs unlocked =>
      obtain ⟨record, rewrite⟩ := finishTask_rewrite s.sched task outcome now
      refine exclusive.rewrite owned rewrite Evolves.finishTask.toAdvances ?_ ?_
      · intro other running after
        obtain ⟨apart, before⟩ := executing_update (by simp) after
        refine ⟨before, fun same => apart ?_⟩
        exact (owned.holder_unique (Or.inr before) (Or.inr runs) same).1
      · intro h name completes
        exact ⟨completes, (exclusive.apart completes runs).symm⟩
  | @cancelOperation name now unlocked =>
      have rewrite := State.cancelOperation_rewrite s.sched name now
      refine exclusive.carry Evolves.cancelOperation.toAdvances (fun runs => runs)
        (fun completes => completes) ?_ ?_
      · intro w task ref runs tracked state
        by_cases here : s.sched.operations.lookup name = some ref
        · rw [rewrite.here here, State.cancelled, if_neg (by simp [state])]
          exact state
        · rwa [rewrite.others here]
      · intro h other ref completes tracked answerable
        by_cases here : s.sched.operations.lookup name = some ref
        · rw [rewrite.here here]
          exact answerable.cancelled now
        · rwa [rewrite.others here]
  | deleteOperation unlocked =>
      exact exclusive.sameHeap Evolves.deleteOperation.toAdvances
        (State.deleteOperation_drops ..).heap (fun runs => runs) (fun completes => completes)
  | cleanupExpired unlocked =>
      exact exclusive.sameHeap Evolves.cleanupExpired.toAdvances rfl (fun runs => runs)
        (fun completes => completes)

def Settled (op : OperationStatus) (outcome : Operation.Result) : Prop :=
  op.state = .completed ∧ State.outcome op = outcome

theorem Exclusive.settled [DecidableEq W] [DecidableEq H] (exclusive : s.Exclusive)
    (starts : s.StartsQueued label) (effect : s.Effect label s') {outcome : Operation.Result}
    (below : ref < s.sched.nextOp) (settled : Settled (s.sched.heap ref) outcome)
    : Settled (s'.sched.heap ref) outcome := by
  cases effect with
  | full | sent | handed | dequeue | cleanupExpired => exact settled
  | insert pc locked =>
      dsimp only
      rwa [State.heap_insertStatus_old below]
  | quiet moved unlocked other same before after =>
      dsimp only
      rwa [same.heap]
  | @completed h now name result unlocked pc =>
      have rewrite := State.finish_rewrite s.sched name
        (fun op => { op with result := some { result, cachedResult := true } }) now
      by_cases here : s.sched.operations.lookup name = some ref
      · have completes : (s.handlers h).pc.completes = some name := by
          rw [pc]
          rfl
        rcases exclusive.answerable completes here with queued | ⟨done, failed⟩
        · rw [settled.1] at queued
          cases queued
        · refine ⟨by rw [State.complete, rewrite.here here]; rfl, ?_⟩
          rw [State.complete, rewrite.here here, outcome_completed done failed]
          exact settled.2
      · rw [State.complete, rewrite.others here]
        exact settled
  | @updateState w now task held unlocked =>
      have rewrite :=
        State.updateState_rewrite s.sched task.name .executing (executingMetadata task) now
      have elsewhere : s.sched.operations.lookup task.name ≠ some ref := by
        intro here
        have queued := starts.queued held here
        rw [settled.1] at queued
        cases queued
      rwa [rewrite.others elsewhere]
  | @finish w outcome now task runs unlocked =>
      obtain ⟨record, rewrite⟩ := finishTask_rewrite s.sched task outcome now
      have elsewhere : s.sched.operations.lookup task.name ≠ some ref := by
        intro here
        have executing := exclusive.executing runs here
        rw [settled.1] at executing
        cases executing
      rwa [rewrite.others elsewhere]
  | @cancelOperation name now unlocked =>
      have rewrite := State.cancelOperation_rewrite s.sched name now
      by_cases here : s.sched.operations.lookup name = some ref
      · rwa [rewrite.here here, State.cancelled, if_neg (by simp [settled.1])]
      · rwa [rewrite.others here]
  | deleteOperation unlocked =>
      rwa [(State.deleteOperation_drops ..).heap]

theorem exclusive_inductive [DecidableEq W] [DecidableEq H]
    : (machine : Lib.Machine (System W H) (Label W H)).Inductive StartsQueued
        (fun s => s.Owned ∧ s.Exclusive) :=
  owned_inductive.restrict.strengthen
    (fun s initial => by
      obtain ⟨queueSize, nodeID, rfl⟩ := initial
      exact exclusive_new queueSize nodeID)
    (fun _ _ _ owned exclusive starts taken =>
      exclusive.effect owned starts (step_effect taken))

theorem run_settled [DecidableEq W] [DecidableEq H] {labels : List (Label W H)}
    (run : machine.Run StartsQueued s labels s') (owned : s.Owned) (exclusive : s.Exclusive)
    {outcome : Operation.Result} (below : ref < s.sched.nextOp)
    (settled : Settled (s.sched.heap ref) outcome)
    : s'.Owned ∧ ref < s'.sched.nextOp
      ∧ (s'.sched.heap ref).name = (s.sched.heap ref).name
      ∧ Settled (s'.sched.heap ref) outcome := by
  induction run with
  | nil s => exact ⟨owned, below, rfl, settled⟩
  | cons starts taken rest ih =>
      have effect := step_effect taken
      obtain ⟨kept, sameName⟩ := effect.record_kept below
      obtain ⟨owned', below', name, settled'⟩ := ih (owned.effect effect)
        (exclusive.effect owned starts effect) kept (exclusive.settled starts effect below settled)
      exact ⟨owned', below', name.trans sameName, settled'⟩

/-- In every run whose workers only start queued operations, an operation that is completed
reports the same state, `Done` flag and outcome for as long as it is tracked.
-/
theorem completed_terminal [DecidableEq W] [DecidableEq H] {labels : List (Label W H)}
    (reach : machine.Reachable StartsQueued s) (run : machine.Run StartsQueued s labels s')
    {name : String} {op op' : OperationStatus}
    (before : s.sched.status? name = some op) (done : op.state = .completed)
    (after : s'.sched.status? name = some op')
    : op'.state = .completed
      ∧ (State.toProto op').done = (State.toProto op).done
      ∧ (State.toProto op').result = (State.toProto op).result := by
  obtain ⟨owned, exclusive⟩ := exclusive_inductive.reachable reach
  obtain ⟨ref, tracked, rfl⟩ := Option.map_eq_some_iff.mp before
  obtain ⟨ref', tracked', rfl⟩ := Option.map_eq_some_iff.mp after
  have below := owned.wellFormed.allocated tracked
  obtain ⟨owned', below', sameName, settled⟩ :=
    run_settled run owned exclusive below ⟨done, rfl⟩
  have same : ref' = ref := by
    apply owned'.wellFormed.distinct (owned'.wellFormed.allocated tracked') below'
    rw [owned'.wellFormed.named tracked', sameName, owned.wellFormed.named tracked]
  subst same
  refine ⟨settled.1, ?_, settled.2⟩
  simp [State.toProto, settled.1, done]

def enqueueOne (request : Request) : List (Label (Fin 2) (Fin 2)) :=
  [.enqueue 0 request sampleUUID 0 none, .insert 0]

/-- A task that its worker completes stays completed under a late cancel and a cleanup. -/
theorem finished_stays_completed
    : ∃ s s' : System (Fin 2) (Fin 2), ∃ op op',
        machine.Reachable StartsQueued s
        ∧ s.sched.status? sampleName = some op ∧ op.state = .completed
        ∧ s'.sched.status? sampleName = some op' ∧ op'.state = .completed
        ∧ (State.toProto op').result = (State.toProto op).result := by
  let first : List (Label (Fin 2) (Fin 2)) :=
    enqueueOne (.execute sampleDigest false "")
      ++ [.dequeue 1, .updateState 1 1, .finish 1 (.error (.plain "exit")) 2]
  obtain ⟨s, run, tested⟩ := Lib.Machine.exists_run_of_execIf machine StartsQueued testNode
    first (fun s => ((s.sched.status? sampleName).any (fun op => op.state = .completed))
      && ((machine.execIf StartsQueued s
        [.cancelOperation sampleName 3, .cleanupExpired 4]).any
          (fun s' => (s'.sched.status? sampleName).isSome))) (by decide)
  obtain ⟨completed, later⟩ := (Bool.and_eq_true _ _).mp tested
  obtain ⟨op, before, done⟩ := (Option.any_eq_true _ _).mp completed
  obtain ⟨s', run', found⟩ := Lib.Machine.exists_run_of_execIf machine StartsQueued s _ _ later
  obtain ⟨op', after⟩ := Option.isSome_iff_exists.mp found
  have reach : machine.Reachable StartsQueued s :=
    ⟨testNode, first, ⟨100, "test-node", rfl⟩, run⟩
  have kept := completed_terminal reach run' before (of_decide_eq_true done) after
  exact ⟨s, s', op, op', reach, before, of_decide_eq_true done, after, kept.1, kept.2.2⟩

/-- A worker reopens an operation that was cancelled while it waited in the queue. -/
theorem cancelled_reopened
    : ¬ ∀ (s s' : System (Fin 2) (Fin 2)) labels name op op',
        machine.Reachable Lib.Machine.anyStep s
        → machine.Run Lib.Machine.anyStep s labels s'
        → s.sched.status? name = some op
        → op.state = .completed
        → s'.sched.status? name = some op'
        → op'.state = .completed := by
  intro always
  let first : List (Label (Fin 2) (Fin 2)) :=
    enqueueOne (.execute sampleDigest false "")
      ++ [.cancelOperation sampleName 1, .dequeue 0]
  obtain ⟨s, run, tested⟩ := Lib.Machine.exists_run_of_exec machine testNode first
    (fun s => ((s.sched.status? sampleName).any (fun op => op.state = .completed))
      && ((machine.exec s [.updateState 0 2]).any
          (fun s' => (s'.sched.status? sampleName).any (fun op => op.state = .executing))))
    (by decide)
  obtain ⟨completed, later⟩ := (Bool.and_eq_true _ _).mp tested
  obtain ⟨op, before, done⟩ := (Option.any_eq_true _ _).mp completed
  obtain ⟨s', run', reopened⟩ := Lib.Machine.exists_run_of_exec machine s _ _ later
  obtain ⟨op', after, executing⟩ := (Option.any_eq_true _ _).mp reopened
  have kept := always s s' _ sampleName op op' ⟨testNode, first, ⟨100, "test-node", rfl⟩, run⟩
    run' before (of_decide_eq_true done) after
  rw [of_decide_eq_true executing] at kept
  cases kept

end System

end GoREgo.Execution
