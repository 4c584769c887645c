import GoREgo.Scheduler.Calls

/-! The executing count against the number of operations that are executing.
Every method keeps their difference except `DeleteOperation`, which forgets to count an
executing operation that it removes.
-/

namespace GoREgo.Scheduler

namespace State

def isExecuting (s : State) (name : String) : Bool :=
  (s.status? name).any (fun op => op.state = .executing)

def executing (s : State) : Nat := s.operations.keys.countP s.isExecuting

variable {s : State} {name : String} {ref : OpRef}

theorem isExecuting_tracked (tracked : s.operations.lookup name = some ref)
    : s.isExecuting name = decide ((s.heap ref).state = .executing) := by
  simp [isExecuting, status?, tracked]

theorem isExecuting_untracked (untracked : s.operations.lookup name = none)
    : s.isExecuting name = false := by
  simp [isExecuting, status?, untracked]

theorem mem_keys_of_lookup (tracked : s.operations.lookup name = some ref)
    : name ∈ s.operations.keys :=
  AList.lookup_isSome.mp (by simp [tracked])

theorem isExecuting_congr {s' : State}
    (lookups : s'.operations.lookup name = s.operations.lookup name)
    (heap : s'.heap = s.heap)
    : s'.isExecuting name = s.isExecuting name := by
  unfold isExecuting status?
  rw [lookups, heap]

theorem executing_congr {s' : State} (operations : s'.operations = s.operations)
    (heap : s'.heap = s.heap)
    : s'.executing = s.executing := by
  unfold executing
  rw [operations]
  apply Lib.countP_agree
  intro key _
  exact (isExecuting_congr (by rw [operations]) heap).symm

/-- Storing a record moves the executing operations by that record alone, since every
other name leads to another record.
-/
theorem executing_store (wf : s.WellFormed) (count : Int) (op : OperationStatus)
    (tracked : s.operations.lookup name = some ref)
    : (s.store name ref count op).executing + (decide ((s.heap ref).state = .executing)).toNat
      = s.executing + (decide (op.state = .executing)).toNat := by
  have old := isExecuting_tracked tracked
  have new : (s.store name ref count op).isExecuting name
      = decide (op.state = .executing) := by
    rw [isExecuting_tracked (s := s.store name ref count op) tracked]
    simp
  rw [← old, ← new]
  unfold executing
  rw [store_operations]
  apply Lib.countP_agree_off s.operations.keys_nodup (mem_keys_of_lookup tracked)
  intro other different
  cases found : s.operations.lookup other with
  | none =>
      rw [isExecuting_untracked found, isExecuting_untracked]
      exact found
  | some at' =>
      have apart : at' ≠ ref := by
        intro same
        subst same
        exact different (wf.name_unique found tracked)
      rw [isExecuting_tracked found,
        isExecuting_tracked (s := s.store name ref count op) found]
      simp [Function.update_of_ne apart]

theorem executing_insertStatus (wf : s.WellFormed) (op : OperationStatus)
    (fresh : ∀ ref, ref < s.nextOp → (s.heap ref).name ≠ op.name)
    (queued : op.state = .queued)
    : (s.insertStatus op).executing = s.executing := by
  have absent : op.name ∉ s.operations := by
    intro member
    obtain ⟨ref, tracked⟩ := Option.isSome_iff_exists.mp (AList.lookup_isSome.mpr member)
    exact fresh ref (wf.allocated tracked) (wf.named tracked)
  have head : (s.insertStatus op).isExecuting op.name = false := by
    have tracked : (s.insertStatus op).operations.lookup op.name = some s.nextOp := by
      simp [insertStatus]
    rw [isExecuting_tracked tracked]
    simp [insertStatus, queued]
  have keys : (s.insertStatus op).operations.keys = op.name :: s.operations.keys := by
    have outside : op.name ∉ s.operations.keys := absent
    simp [insertStatus, List.erase_of_not_mem outside]
  unfold executing
  rw [keys, List.countP_cons, head]
  simp only [Bool.false_eq_true, if_false, Nat.add_zero]
  apply Lib.countP_agree
  intro other member
  have different : other ≠ op.name := fun same => absent (same ▸ member)
  have lookups : (s.insertStatus op).operations.lookup other = s.operations.lookup other := by
    simp [insertStatus, AList.lookup_insert_ne different]
  cases found : s.operations.lookup other with
  | none => rw [isExecuting_untracked found, isExecuting_untracked (lookups.trans found)]
  | some at' =>
      rw [isExecuting_tracked found, isExecuting_tracked (lookups.trans found)]
      simp [insertStatus, Function.update_of_ne (Nat.ne_of_lt (wf.allocated found))]

theorem executing_deleteOperation (s : State) (name : String)
    : (s.deleteOperation name).1.executing + (s.isExecuting name).toNat = s.executing := by
  have others (other : String) (different : other ≠ name)
      : (s.deleteOperation name).1.isExecuting other = s.isExecuting other := by
    apply isExecuting_congr
    · rw [lookup_deleteOperation, if_neg different]
    · rw [deleteOperation_fst]
  have kept : (s.deleteOperation name).1.executing
      = (s.operations.keys.erase name).countP s.isExecuting := by
    unfold executing
    have keys : (s.deleteOperation name).1.operations.keys = s.operations.keys.erase name := by
      simp [deleteOperation_fst]
    rw [keys]
    apply Lib.countP_agree
    intro other member
    exact (others other (s.operations.keys_nodup.mem_erase_iff.mp member).1).symm
  rw [kept]
  by_cases member : name ∈ s.operations.keys
  · exact Lib.countP_erase_add member
  · have untracked : s.operations.lookup name = none := AList.lookup_eq_none.mpr member
    rw [isExecuting_untracked untracked, List.erase_of_not_mem member]
    rfl

/-- Expired operations are completed, so removing them loses no executing one. -/
theorem executing_cleanupExpired {now : Int}
    : (s.cleanupExpired now).executing = s.executing := by
  have keys : (s.cleanupExpired now).operations.keys
      = s.operations.keys.filter (fun name => ¬ s.expired now name = true) := by
    unfold cleanupExpired
    dsimp only
    rw [Lib.keys_foldl_erase]
    apply List.filter_congr
    intro other _
    simp only [mem_gone]
  unfold executing
  rw [keys, List.countP_filter]
  apply Lib.countP_agree
  intro other member
  cases gone : s.expired now other with
  | true =>
      obtain ⟨ref, tracked⟩ := Option.isSome_iff_exists.mp (AList.lookup_isSome.mpr member)
      rw [isExecuting_tracked tracked, completed_of_expired tracked gone]
      simp
  | false =>
      have lookups : (s.cleanupExpired now).operations.lookup other
          = s.operations.lookup other := by
        simp [lookup_cleanupExpired, gone]
      rw [isExecuting_congr lookups rfl]
      simp

/-- The load that the scheduler reports is exact: the count is the number of executing
operations, so the pending tasks are the queued and the executing ones.
-/
structure LoadExact (s : State) : Prop where
  count : s.executingCount = s.executing
  pending : s.getPendingTaskCount = s.taskQueue.length + s.executing
  idle : s.executing = 0 → s.getPendingTaskCount = s.taskQueue.length

theorem loadExact_iff : s.LoadExact ↔ s.executingCount = s.executing := by
  refine ⟨fun exact => exact.count, fun count => ⟨count, ?_, fun idle => ?_⟩⟩
  · rw [getPendingTaskCount, count]
  · rw [getPendingTaskCount, count, idle]
    simp

end State

namespace Session

variable {s s' start : Session} {call : Call} {calls : List Call}

def drift (s : Session) : Int := s.sched.executingCount - s.sched.executing

def deletesExecuting (s : Session) : Call → Bool
  | .deleteOperation name => s.sched.isExecuting name
  | _ => false

def SparesExecuting (s : Session) (call : Call) : Prop := s.deletesExecuting call = false

instance (s : Session) (call : Call) : Decidable (SparesExecuting s call) :=
  inferInstanceAs (Decidable (_ = _))

theorem store_drift (valid : s.Valid) {name : String} {ref : OpRef} {count : Int}
    {op : OperationStatus} (tracked : s.sched.operations.lookup name = some ref)
    (moves
      : count + (decide ((s.sched.heap ref).state = .executing)).toNat
        = s.sched.executingCount + (decide (op.state = .executing)).toNat)
    : ({ s with sched := s.sched.store name ref count op } : Session).drift = s.drift := by
  have moved := State.executing_store valid.wellFormed count op tracked
  simp only [drift, State.store_executingCount]
  omega

theorem finish_drift (valid : s.Valid) {name : String}
    {record : OperationStatus → OperationStatus} {now : Int}
    : ({ s with sched := s.sched.finish name record now } : Session).drift = s.drift := by
  cases found : s.sched.operations.lookup name with
  | none => rw [State.finish_untracked found]
  | some ref =>
      rw [State.finish_tracked found]
      apply store_drift valid found
      by_cases executing : (s.sched.heap ref).state = .executing <;> simp [executing]

theorem drift_congr {sched : State}
    (operations : sched.operations = s.sched.operations)
    (heap : sched.heap = s.sched.heap)
    (count : sched.executingCount = s.sched.executingCount)
    : ({ s with sched } : Session).drift = s.drift := by
  simp only [drift, State.executing_congr operations heap, count]

/-- Every call keeps the drift, except that deleting an executing operation raises it by
one. Witness: a case for each method, from what the method stores or removes.
-/
theorem step_drift (valid : s.Valid) (taken : machine.step s call = some s')
    : s'.drift = s.drift + (s.deletesExecuting call).toNat := by
  have quiet : (false.toNat : Int) = 0 := rfl
  cases call with
  | enqueue uuid actionDigest skipCache nodeIDOverride now receiver =>
      simp only [machine, step] at taken
      split at taken
      · simp at taken
      next new =>
        obtain rfl := Option.some.inj taken
        simp only [deletesExecuting, quiet, Int.add_zero]
        cases offered : s.sched.offerTask?
            (s.sched.newTask uuid actionDigest skipCache nodeIDOverride now) receiver with
        | none => rw [State.enqueue_full offered]; rfl
        | some sent =>
            rw [State.enqueue_sent offered]
            obtain ⟨operations, heap, nextOp, count⟩ := State.offerTask?_records offered
            have sentWf : sent.WellFormed :=
              valid.wellFormed.of_sub (fun found => operations ▸ found) heap nextOp
            have inserted := State.executing_insertStatus sentWf
              (State.newStatus
                (s.sched.newTask uuid actionDigest skipCache nodeIDOverride now))
              (fun ref below => by
                rw [heap]
                exact valid.fresh new _ ref (nextOp ▸ below)) rfl
            simp only [drift, inserted, State.executing_congr operations heap]
            simp only [State.insertStatus, count]
  | dequeue =>
      obtain ⟨rest, rfl⟩ := step_dequeue taken
      simp [deletesExecuting, drift_congr]
  | updateState name state metadata now =>
      obtain rfl := Option.some.inj taken
      simp only [deletesExecuting, quiet, Int.add_zero]
      cases found : s.sched.operations.lookup name with
      | none => rw [State.updateState_untracked found]
      | some ref =>
          rw [State.updateState_tracked found]
          apply store_drift valid found
          by_cases old : (s.sched.heap ref).state = .executing <;>
            by_cases new : state = .executing <;>
            simp [State.updatedCount, old, new]
  | complete name result now =>
      obtain rfl := Option.some.inj taken
      simp only [deletesExecuting, quiet, Int.add_zero]
      exact finish_drift valid
  | fail name error now =>
      obtain rfl := Option.some.inj taken
      simp only [deletesExecuting, quiet, Int.add_zero]
      exact finish_drift valid
  | cancelOperation name now =>
      obtain rfl := Option.some.inj taken
      simp only [deletesExecuting, quiet, Int.add_zero]
      by_cases queued : ∃ ref, s.sched.operations.lookup name = some ref
          ∧ (s.sched.heap ref).state = .queued
      · obtain ⟨ref, tracked, queued⟩ := queued
        rw [State.cancelOperation_queued tracked queued]
        apply store_drift valid tracked
        simp [queued]
      · rw [State.cancelOperation_refused
          (fun ref tracked state => queued ⟨ref, tracked, state⟩)]
  | deleteOperation name =>
      obtain rfl := Option.some.inj taken
      have lost := State.executing_deleteOperation s.sched name
      have count : (s.sched.deleteOperation name).1.executingCount
          = s.sched.executingCount := by
        rw [State.deleteOperation_fst]
      simp only [drift, deletesExecuting, count]
      omega
  | cleanupExpired now =>
      obtain rfl := Option.some.inj taken
      simp only [deletesExecuting, quiet, Int.add_zero, drift,
        State.executing_cleanupExpired]
      rfl
  | subscribe name =>
      obtain rfl := Option.some.inj taken
      simp only [deletesExecuting, quiet, Int.add_zero]
      exact drift_congr rfl rfl rfl
  | unsubscribe name ch =>
      obtain rfl := Option.some.inj taken
      simp only [deletesExecuting, quiet, Int.add_zero]
      unfold State.unsubscribe
      split
      · exact drift_congr rfl rfl rfl
      · rfl
  | receive ch =>
      obtain ⟨⟨ref, sched⟩, received, rfl⟩ := Option.map_eq_some_iff.mp taken
      unfold State.receive? at received
      split at received
      · simp at received
      · obtain ⟨_, rfl⟩ := Prod.mk.inj (Option.some.inj received)
        simp [deletesExecuting, drift_congr]

/-- Along a run the drift never falls, and it stays as it was exactly when no call of the
run deleted an executing operation. Witness: induction along the run from the one-call
drift; a later call cannot undo an earlier rise.
-/
theorem run_drift (run : machine.Run Lib.Machine.anyStep s calls s') (valid : s.Valid)
    : s.drift ≤ s'.drift ∧ (s'.drift = s.drift ↔ machine.Run SparesExecuting s calls s') := by
  induction run with
  | nil s => exact ⟨Int.le_refl _, fun _ => .nil s, fun _ => rfl⟩
  | @cons s mid s' call rest _ taken tail ih =>
      have head := step_drift valid taken
      obtain ⟨below, same⟩ := ih (valid_inductive.keeps s call mid valid trivial taken)
      have nonneg : 0 ≤ ((s.deletesExecuting call).toNat : Int) := Int.natCast_nonneg _
      refine ⟨by omega, fun equal => ?_, fun spared => ?_⟩
      · have rest_eq : s'.drift = mid.drift := by omega
        have none : (s.deletesExecuting call).toNat = 0 := by omega
        refine .cons ?_ taken (same.mp rest_eq)
        cases deletes : s.deletesExecuting call with
        | false => exact deletes
        | true => simp [deletes] at none
      · cases spared with
        | cons allowed taken' later =>
            obtain rfl := Option.some.inj (taken.symm.trans taken')
            have quiet : s.deletesExecuting call = false := allowed
            rw [same.mpr later, head, quiet]
            simp

/-- The reported load is exact in the state that a run reaches if and only if no call of
the run deleted an operation while it was executing.
-/
theorem loadExact_iff_sparesExecuting (initial : machine.initial start)
    (run : machine.Run Lib.Machine.anyStep start calls s)
    : s.sched.LoadExact ↔ machine.Run SparesExecuting start calls s := by
  have zero : start.drift = 0 := by
    obtain ⟨queueSize, nodeID, rfl⟩ := initial
    rfl
  have drifts := (run_drift run (valid_inductive.start start initial)).2
  rw [State.loadExact_iff, ← drifts, zero]
  unfold drift
  omega

def testSession : Session where
  sched := newScheduler 100 "test-node"
  issued := []

def startOne : List Call :=
  [.enqueue sampleUUID sampleDigest false "" 0 false, .dequeue,
    .updateState sampleName .executing { stage := .executing, actionDigest := sampleDigest } 1]

/-- Completing the executing operation brings the load back to the queue length. -/
theorem complete_loadExact
    : ∃ s, machine.Run Lib.Machine.anyStep testSession
        (startOne ++ [.complete sampleName none 2]) s
      ∧ s.sched.LoadExact := by
  obtain ⟨s, spared, _⟩ := Lib.Machine.exists_run_of_execIf machine SparesExecuting testSession
    (startOne ++ [.complete sampleName none 2]) (fun _ => true) (by decide)
  exact ⟨s, spared.unguarded,
    (loadExact_iff_sparesExecuting ⟨100, "test-node", rfl⟩ spared.unguarded).mpr spared⟩

/-- Deleting the executing operation leaves a count of one with nothing executing. -/
theorem delete_executing_not_loadExact
    : ¬ ∀ start calls s,
        machine.initial start
        → machine.Run Lib.Machine.anyStep start calls s
        → s.sched.LoadExact := by
  intro always
  obtain ⟨s, run, drifted⟩ := Lib.Machine.exists_run_of_exec machine testSession
    (startOne ++ [.deleteOperation sampleName])
    (fun s => s.sched.executingCount = 1 ∧ s.sched.executing = 0) (by decide)
  have exact := (always testSession _ s ⟨100, "test-node", rfl⟩ run).count
  simp only [Bool.decide_and, Bool.and_eq_true, decide_eq_true_eq] at drifted
  rw [drifted.1, drifted.2] at exact
  exact absurd exact (by decide)

end Session

end GoREgo.Scheduler
