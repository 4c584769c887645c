import GoREgo.Lib.Maps
import GoREgo.Scheduler.Model

/-! Which record a name leads to, and how each scheduler method moves the records.
Names come from fresh UUIDs, so a record keeps its own name for the whole run.
-/

namespace GoREgo

theorem UUID.eq_of_text {left right : UUID} (same : left.text = right.text)
    : left = right := by
  cases left
  cases right
  simpa using same

theorem operationID_toList (nodePrefix : String) (uuid : UUID)
    : (operationID nodePrefix uuid).toList
      = (if nodePrefix ≠ "" then nodePrefix.toList ++ [':'] else []) ++ uuid.text.toList := by
  unfold operationID
  split <;> simp [String.toList_append]

/-- An identifier determines its UUID under any prefixes, since its last 36 characters are
that UUID.
-/
theorem operationID_uuid {left right : String} {uuid other : UUID}
    (same : operationID left uuid = operationID right other)
    : uuid = other := by
  have chars := congrArg String.toList same
  rw [operationID_toList, operationID_toList] at chars
  have tails := List.append_inj_right' chars (by rw [uuid.length_eq, other.length_eq])
  exact UUID.eq_of_text (String.toList_inj.mp tails)

theorem operationName_injective {left right : String}
    (same : operationName left = operationName right)
    : left = right :=
  (String.append_right_inj _).mp same

namespace Scheduler

theorem Task.operationID_of_name {left right : Task} (same : left.name = right.name)
    : left.operationID = right.operationID :=
  operationName_injective same

namespace State

variable {s : State} {name other : String} {ref : OpRef} {op : OperationStatus}
  {state : OperationState} {metadata : ExecuteOperationMetadata}
  {record : OperationStatus → OperationStatus} {count now : Int}

section Store

variable (s : State) (name : String) (ref : OpRef) (count : Int) (op : OperationStatus)

@[simp] theorem store_operations : (s.store name ref count op).operations = s.operations :=
  rfl

@[simp] theorem store_subscribers
    : (s.store name ref count op).subscribers = s.subscribers :=
  rfl

@[simp] theorem store_taskQueue : (s.store name ref count op).taskQueue = s.taskQueue := rfl

@[simp] theorem store_queueSize : (s.store name ref count op).queueSize = s.queueSize := rfl

@[simp] theorem store_retention : (s.store name ref count op).retention = s.retention := rfl

@[simp] theorem store_nodeID : (s.store name ref count op).nodeID = s.nodeID := rfl

@[simp] theorem store_executingCount : (s.store name ref count op).executingCount = count :=
  rfl

@[simp] theorem store_heap
    : (s.store name ref count op).heap = Function.update s.heap ref op :=
  rfl

@[simp] theorem store_nextOp : (s.store name ref count op).nextOp = s.nextOp := rfl

@[simp] theorem store_nextChan : (s.store name ref count op).nextChan = s.nextChan := rfl

end Store

theorem updateState_untracked (untracked : s.operations.lookup name = none)
    : s.updateState name state metadata now = s := by
  simp [updateState, untracked]

def updatedCount (s : State) (old new : OperationState) : Int :=
  if old ≠ .executing ∧ new = .executing then
    s.executingCount + 1
  else if old = .executing ∧ new ≠ .executing then
    s.executingCount - 1
  else
    s.executingCount

theorem updateState_tracked (tracked : s.operations.lookup name = some ref)
    : s.updateState name state metadata now
      = s.store name ref (s.updatedCount (s.heap ref).state state)
          { s.heap ref with state, metadata, updatedAt := now } := by
  simp [updateState, tracked, updatedCount]

theorem finish_untracked (untracked : s.operations.lookup name = none)
    : s.finish name record now = s := by
  simp [finish, untracked]

theorem finish_tracked (tracked : s.operations.lookup name = some ref)
    : s.finish name record now
      = s.store name ref
          (if (s.heap ref).state = .executing then s.executingCount - 1 else s.executingCount)
          (completed (s.heap ref) record now) := by
  simp [finish, tracked]

theorem cancelOperation_refused
    (refused : ∀ ref, s.operations.lookup name = some ref → (s.heap ref).state ≠ .queued)
    : (s.cancelOperation name now).1 = s := by
  unfold cancelOperation
  cases found : s.operations.lookup name with
  | none => rfl
  | some ref => simp [refused ref found]

theorem cancelOperation_queued (tracked : s.operations.lookup name = some ref)
    (queued : (s.heap ref).state = .queued)
    : s.cancelOperation name now
      = (s.store name ref s.executingCount
          (completed (s.heap ref)
            (fun op => { op with error := some operationCancelled }) now),
        none) := by
  simp [cancelOperation, tracked, queued]

variable {receiver skipCache : Bool} {uuid : UUID} {actionDigest : Digest}
variable {nodeIDOverride : String} {s' : State}

theorem offerTask?_records {sent : State} {task : Task}
    (offered : s.offerTask? task receiver = some sent)
    : sent.operations = s.operations ∧ sent.heap = s.heap ∧ sent.nextOp = s.nextOp
      ∧ sent.executingCount = s.executingCount := by
  unfold offerTask? at offered
  split at offered
  · obtain rfl := Option.some.inj offered
    exact ⟨rfl, rfl, rfl, rfl⟩
  · split at offered
    · obtain rfl := Option.some.inj offered
      exact ⟨rfl, rfl, rfl, rfl⟩
    · simp at offered

theorem enqueue_full (full
      : s.offerTask? (s.newTask uuid actionDigest skipCache nodeIDOverride now) receiver
        = none)
    : s.enqueue uuid actionDigest skipCache nodeIDOverride now receiver
      = (s, .error queueFull) := by
  simp [enqueue, full]

theorem enqueue_sent {sent : State} (offered
      : s.offerTask? (s.newTask uuid actionDigest skipCache nodeIDOverride now) receiver
        = some sent)
    : s.enqueue uuid actionDigest skipCache nodeIDOverride now receiver
      = (sent.insertStatus
          (newStatus (s.newTask uuid actionDigest skipCache nodeIDOverride now)),
        .ok (toProto
          (newStatus (s.newTask uuid actionDigest skipCache nodeIDOverride now)))) := by
  simp [enqueue, offered]

theorem enqueue_ok {after : State} {reported : Operation} (done
      : s.enqueue uuid actionDigest skipCache nodeIDOverride now receiver
        = (after, .ok reported))
    : ∃ taskQueue,
        after = { s with taskQueue }.insertStatus
          (newStatus (s.newTask uuid actionDigest skipCache nodeIDOverride now))
        ∧ reported.name = (s.newTask uuid actionDigest skipCache nodeIDOverride now).name := by
  cases offered : s.offerTask? (s.newTask uuid actionDigest skipCache nodeIDOverride now)
      receiver with
  | none =>
      rw [enqueue_full offered] at done
      cases done
  | some sent =>
      rw [enqueue_sent offered] at done
      obtain ⟨rfl, reply⟩ := Prod.mk.inj done
      obtain rfl := Except.ok.inj reply
      unfold offerTask? at offered
      split at offered
      · obtain rfl := Option.some.inj offered
        exact ⟨_, rfl, rfl⟩
      · split at offered
        · obtain rfl := Option.some.inj offered
          exact ⟨_, rfl, rfl⟩
        · cases offered

theorem deleteOperation_fst
    : (s.deleteOperation name).1
      = { s with operations := s.operations.erase name } := by
  unfold deleteOperation
  cases found : s.operations.lookup name with
  | none =>
      have absent := AList.lookup_eq_none.mp found
      have same : s.operations.erase name = s.operations := by
        apply AList.ext
        exact List.kerase_of_notMem_keys absent
      simp [same]
  | some ref => rfl

@[simp] theorem completed_state : (completed op record now).state = .completed := rfl

theorem getOperation_ok {reported : Operation}
    (found : s.getOperation name = .ok reported)
    : ∃ ref, s.operations.lookup name = some ref ∧ reported = toProto (s.heap ref) := by
  unfold getOperation at found
  split at found
  · cases found
  next ref tracked => exact ⟨ref, tracked, (Except.ok.inj found).symm⟩

theorem lookup_deleteOperation
    : (s.deleteOperation name).1.operations.lookup other
      = if other = name then none else s.operations.lookup other := by
  rw [deleteOperation_fst]
  by_cases same : other = name
  · subst same
    simp
  · simp [same, AList.lookup_erase_ne same]

theorem lookup_insertStatus
    : (s.insertStatus op).operations.lookup name
      = if name = op.name then some s.nextOp else s.operations.lookup name := by
  by_cases same : name = op.name
  · subst same
    simp [insertStatus]
  · simp [insertStatus, same, AList.lookup_insert_ne same]

@[simp] theorem newStatus_name (task : Task) : (newStatus task).name = task.name := rfl

theorem heap_insertStatus_new : (s.insertStatus op).heap s.nextOp = op := by
  simp [insertStatus]

theorem heap_insertStatus_old (below : ref < s.nextOp)
    : (s.insertStatus op).heap ref = s.heap ref := by
  simp [insertStatus, Function.update_of_ne (Nat.ne_of_lt below)]

theorem mem_keys_of_expired (gone : s.expired now name = true)
    : name ∈ s.operations.keys := by
  cases found : s.operations.lookup name with
  | none => simp [expired, status?, found] at gone
  | some ref =>
      exact AList.lookup_isSome.mp (by simp [found])

theorem mem_gone
    : name ∈ s.operations.keys.filter (s.expired now) ↔ s.expired now name = true := by
  rw [List.mem_filter]
  exact ⟨fun both => both.2, fun gone => ⟨mem_keys_of_expired gone, gone⟩⟩

theorem lookup_cleanupExpired
    : (s.cleanupExpired now).operations.lookup name
      = if s.expired now name = true then none else s.operations.lookup name := by
  unfold cleanupExpired
  rw [Lib.lookup_foldl_erase]
  simp only [mem_gone]

theorem completed_of_expired (tracked : s.operations.lookup name = some ref)
    (gone : s.expired now name = true)
    : (s.heap ref).state = .completed := by
  simp only [expired, status?, tracked, Option.map_some, Bool.decide_and,
    Bool.and_eq_true, decide_eq_true_eq] at gone
  exact gone.1

structure Rewrite (s s' : State) (name : String)
    (change : OperationStatus → OperationStatus) : Prop where
  operations : s'.operations = s.operations
  nextOp : s'.nextOp = s.nextOp
  taskQueue : s'.taskQueue = s.taskQueue
  queueSize : s'.queueSize = s.queueSize
  nodeID : s'.nodeID = s.nodeID
  here : ∀ {ref}, s.operations.lookup name = some ref → s'.heap ref = change (s.heap ref)
  others : ∀ {ref}, s.operations.lookup name ≠ some ref → s'.heap ref = s.heap ref

theorem Rewrite.untracked {change : OperationStatus → OperationStatus}
    (untracked : s.operations.lookup name = none)
    : Rewrite s s name change :=
  ⟨rfl, rfl, rfl, rfl, rfl, fun found => by simp [untracked] at found, fun _ => rfl⟩

theorem Rewrite.store (count : Int) (change : OperationStatus → OperationStatus)
    (tracked : s.operations.lookup name = some ref)
    : Rewrite s (s.store name ref count (change (s.heap ref))) name change := by
  refine ⟨rfl, rfl, rfl, rfl, rfl, fun found => ?_, fun {other} elsewhere => ?_⟩
  · obtain rfl := Option.some.inj (tracked.symm.trans found)
    simp
  · have apart : other ≠ ref := fun same => elsewhere (same ▸ tracked)
    simp [Function.update_of_ne apart]

theorem updateState_rewrite (s : State) (name : String) (state : OperationState)
    (metadata : ExecuteOperationMetadata) (now : Int)
    : Rewrite s (s.updateState name state metadata now) name
        (fun op => { op with state, metadata, updatedAt := now }) := by
  cases found : s.operations.lookup name with
  | none =>
      rw [updateState_untracked found]
      exact .untracked found
  | some ref =>
      rw [updateState_tracked found]
      exact .store _ (fun op => { op with state, metadata, updatedAt := now }) found

theorem finish_rewrite (s : State) (name : String)
    (record : OperationStatus → OperationStatus) (now : Int)
    : Rewrite s (s.finish name record now) name (fun op => completed op record now) := by
  cases found : s.operations.lookup name with
  | none =>
      rw [finish_untracked found]
      exact .untracked found
  | some ref =>
      rw [finish_tracked found]
      exact .store _ (fun op => completed op record now) found

/-- What `CancelOperation` makes of a tracked record: only a queued one is cancelled. -/
def cancelled (now : Int) (op : OperationStatus) : OperationStatus :=
  if op.state = .queued then
    completed op (fun op => { op with error := some operationCancelled }) now
  else
    op

theorem cancelled_name (now : Int) (op : OperationStatus)
    : (cancelled now op).name = op.name := by
  unfold cancelled
  split <;> rfl

theorem cancelOperation_rewrite (s : State) (name : String) (now : Int)
    : Rewrite s (s.cancelOperation name now).1 name (cancelled now) := by
  by_cases queued : ∃ ref, s.operations.lookup name = some ref ∧ (s.heap ref).state = .queued
  · obtain ⟨ref, tracked, queued⟩ := queued
    have stored := Rewrite.store s.executingCount (cancelled now) tracked
    rw [cancelOperation_queued tracked queued]
    simpa only [cancelled, queued, if_true] using stored
  · have refused : ∀ ref, s.operations.lookup name = some ref
        → (s.heap ref).state ≠ .queued :=
      fun ref tracked state => queued ⟨ref, tracked, state⟩
    rw [cancelOperation_refused refused]
    refine ⟨rfl, rfl, rfl, rfl, rfl, fun found => ?_, fun _ => rfl⟩
    rw [cancelled, if_neg (refused _ found)]

structure Drops (s s' : State) : Prop where
  sub
    : ∀ {name ref}, s'.operations.lookup name = some ref
      → s.operations.lookup name = some ref
  heap : s'.heap = s.heap
  nextOp : s'.nextOp = s.nextOp
  taskQueue : s'.taskQueue = s.taskQueue
  queueSize : s'.queueSize = s.queueSize
  nodeID : s'.nodeID = s.nodeID

theorem deleteOperation_drops (s : State) (name : String)
    : Drops s (s.deleteOperation name).1 := by
  refine ⟨fun {other ref} found => ?_, ?_, ?_, ?_, ?_, ?_⟩
  · rw [lookup_deleteOperation] at found
    split at found
    · simp at found
    · exact found
  all_goals rw [deleteOperation_fst]

theorem cleanupExpired_drops (s : State) (now : Int)
    : Drops s (s.cleanupExpired now) := by
  refine ⟨fun {other ref} found => ?_, rfl, rfl, rfl, rfl, rfl⟩
  rw [lookup_cleanupExpired] at found
  split at found
  · simp at found
  · exact found

/-- Tracked names lead to allocated records that carry them, and no two records share a
name.
-/
structure WellFormed (s : State) : Prop where
  allocated : ∀ {name ref}, s.operations.lookup name = some ref → ref < s.nextOp
  named : ∀ {name ref}, s.operations.lookup name = some ref → (s.heap ref).name = name
  distinct
    : ∀ {left right},
        left < s.nextOp
        → right < s.nextOp
        → (s.heap left).name = (s.heap right).name
        → left = right

theorem WellFormed.name_unique (wf : s.WellFormed)
    (first : s.operations.lookup name = some ref)
    (second : s.operations.lookup other = some ref)
    : name = other :=
  (wf.named first).symm.trans (wf.named second)

theorem newScheduler_wellFormed (queueSize : Nat) (nodeID : String)
    : (newScheduler queueSize nodeID).WellFormed where
  allocated found := by simp [newScheduler] at found
  named found := by simp [newScheduler] at found
  distinct left := by simp [newScheduler] at left

theorem WellFormed.of_sub (wf : s.WellFormed) (sub
      : ∀ {name ref}, s'.operations.lookup name = some ref
        → s.operations.lookup name = some ref) (heap : s'.heap = s.heap)
    (nextOp : s'.nextOp = s.nextOp)
    : s'.WellFormed where
  allocated found := by
    rw [nextOp]
    exact wf.allocated (sub found)
  named found := by
    rw [heap]
    exact wf.named (sub found)
  distinct left right same := by
    rw [nextOp] at left right
    rw [heap] at same
    exact wf.distinct left right same

theorem Rewrite.names {change : OperationStatus → OperationStatus}
    (rewrite : Rewrite s s' name change) (keeps : ∀ op, (change op).name = op.name) (ref : OpRef)
    : (s'.heap ref).name = (s.heap ref).name := by
  by_cases found : s.operations.lookup name = some ref
  · rw [rewrite.here found, keeps]
  · rw [rewrite.others found]

theorem Rewrite.apart {change : OperationStatus → OperationStatus}
    (rewrite : Rewrite s s' name change) (wf : s.WellFormed)
    (tracked : s.operations.lookup other = some ref) (apart : other ≠ name)
    : s'.heap ref = s.heap ref :=
  rewrite.others (fun found => apart (wf.name_unique tracked found))

theorem WellFormed.insertStatus (wf : s.WellFormed)
    (fresh : ∀ ref, ref < s.nextOp → (s.heap ref).name ≠ op.name)
    : (s.insertStatus op).WellFormed := by
  have lookups {name : String} {ref : OpRef}
      (found : (s.insertStatus op).operations.lookup name = some ref)
      : (name = op.name ∧ ref = s.nextOp) ∨ s.operations.lookup name = some ref := by
    rw [lookup_insertStatus] at found
    split at found
    · exact Or.inl ⟨‹_›, (Option.some.inj found).symm⟩
    · exact Or.inr found
  refine ⟨fun found => ?_, fun found => ?_, fun {left right} leftBelow rightBelow same => ?_⟩
  · show _ < s.nextOp + 1
    rcases lookups found with ⟨_, rfl⟩ | earlier
    · exact Nat.lt_succ_self _
    · exact Nat.lt_succ_of_lt (wf.allocated earlier)
  · rcases lookups found with ⟨rfl, rfl⟩ | earlier
    · rw [heap_insertStatus_new]
    · rw [heap_insertStatus_old (wf.allocated earlier)]
      exact wf.named earlier
  · rcases Nat.lt_succ_iff_lt_or_eq.mp leftBelow with leftOld | rfl
    · rcases Nat.lt_succ_iff_lt_or_eq.mp rightBelow with rightOld | rfl
      · rw [heap_insertStatus_old leftOld, heap_insertStatus_old rightOld] at same
        exact wf.distinct leftOld rightOld same
      · rw [heap_insertStatus_old leftOld, heap_insertStatus_new] at same
        exact (fresh left leftOld same).elim
    · rcases Nat.lt_succ_iff_lt_or_eq.mp rightBelow with rightOld | rfl
      · rw [heap_insertStatus_old rightOld, heap_insertStatus_new] at same
        exact (fresh right rightOld same.symm).elim
      · rfl

end State

/-- A UUID, a digest and the name they give on the node `test-node`, for concrete runs. -/
def sampleUUID : UUID where
  text := "00000000-0000-4000-8000-000000000001"
  length_eq := by decide
  chars := by decide

def sampleDigest : Digest := { hash := "abc123", sizeBytes := 100 }

def sampleName : String := "operations/test-node:00000000-0000-4000-8000-000000000001"

def otherUUID : UUID where
  text := "00000000-0000-4000-8000-000000000002"
  length_eq := by decide
  chars := by decide

end Scheduler

end GoREgo
