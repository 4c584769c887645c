import GoREgo.Lib.Machine
import GoREgo.Scheduler.Records

/-! The scheduler under arbitrary sequences of calls, on known and unknown names.
The only promise used about the outside is that UUIDs are not drawn twice.
-/

namespace GoREgo.Scheduler

/-- A scheduler together with the UUIDs that its `Enqueue` calls have drawn. -/
structure Session where
  sched : State
  issued : List UUID

/-- One call of a scheduler method, with its arguments and the time it reads. -/
inductive Call
  | enqueue (uuid : UUID) (actionDigest : Digest) (skipCache : Bool)
    (nodeIDOverride : String) (now : Int) (receiver : Bool)
  | dequeue
  | updateState (name : String) (state : OperationState)
    (metadata : ExecuteOperationMetadata) (now : Int)
  | complete (name : String) (result : Option ExecuteResponse) (now : Int)
  | fail (name : String) (error : Option GoError) (now : Int)
  | cancelOperation (name : String) (now : Int)
  | deleteOperation (name : String)
  | cleanupExpired (now : Int)
  | subscribe (name : String)
  | unsubscribe (name : String) (ch : ChanRef)
  | receive (ch : ChanRef)
deriving DecidableEq

namespace Session

/-- The effect of a call. A drawn UUID is refused, and an empty queue or channel blocks. -/
def step (s : Session) : Call → Option Session
  | .enqueue uuid actionDigest skipCache nodeIDOverride now receiver =>
      if uuid ∈ s.issued then
        none
      else
        some {
          sched :=
            (s.sched.enqueue uuid actionDigest skipCache nodeIDOverride now receiver).1
          issued := uuid :: s.issued
        }
  | .dequeue => s.sched.dequeue?.map (fun taken => { s with sched := taken.2 })
  | .updateState name state metadata now =>
      some { s with sched := s.sched.updateState name state metadata now }
  | .complete name result now => some { s with sched := s.sched.complete name result now }
  | .fail name error now => some { s with sched := s.sched.fail name error now }
  | .cancelOperation name now =>
      some { s with sched := (s.sched.cancelOperation name now).1 }
  | .deleteOperation name => some { s with sched := (s.sched.deleteOperation name).1 }
  | .cleanupExpired now => some { s with sched := s.sched.cleanupExpired now }
  | .subscribe name => some { s with sched := (s.sched.subscribe name).1 }
  | .unsubscribe name ch => some { s with sched := s.sched.unsubscribe name ch }
  | .receive ch => (s.sched.receive? ch).map (fun taken => { s with sched := taken.2 })

def machine : Lib.Machine Session Call where
  initial s := ∃ queueSize nodeID, s = { sched := newScheduler queueSize nodeID, issued := [] }
  step := step

structure Valid (s : Session) : Prop where
  wellFormed : s.sched.WellFormed
  issued
    : ∀ ref,
        ref < s.sched.nextOp
        → ∃ nodePrefix,
            ∃ uuid ∈ s.issued,
              (s.sched.heap ref).name = operationName (operationID nodePrefix uuid)

variable {s : Session} {sched : State}

theorem Valid.fresh (valid : s.Valid) {uuid : UUID} (new : uuid ∉ s.issued)
    (nodePrefix : String) (ref : OpRef) (below : ref < s.sched.nextOp)
    : (s.sched.heap ref).name ≠ operationName (operationID nodePrefix uuid) := by
  intro same
  obtain ⟨other, drawn, member, name⟩ := valid.issued ref below
  have equal := operationID_uuid (operationName_injective (name.symm.trans same))
  exact new (equal ▸ member)

/-- No identifier is drawn, no record is allocated or renamed, and no name is added. -/
structure Quiet (s s' : Session) : Prop where
  issued : s'.issued = s.issued
  nodeID : s'.sched.nodeID = s.sched.nodeID
  nextOp : s'.sched.nextOp = s.sched.nextOp
  names : ∀ ref, (s'.sched.heap ref).name = (s.sched.heap ref).name
  sub
    : ∀ {name ref}, s'.sched.operations.lookup name = some ref
      → s.sched.operations.lookup name = some ref

theorem Quiet.of_rewrite {name : String} {change : OperationStatus → OperationStatus}
    (rewrite : s.sched.Rewrite sched name change) (keeps : ∀ op, (change op).name = op.name)
    : Quiet s { s with sched } :=
  ⟨rfl, rewrite.nodeID, rewrite.nextOp, rewrite.names keeps,
    fun found => rewrite.operations ▸ found⟩

theorem Quiet.of_drops (drops : s.sched.Drops sched) : Quiet s { s with sched } :=
  ⟨rfl, drops.nodeID, drops.nextOp, fun ref => by rw [drops.heap], drops.sub⟩

theorem step_dequeue {s' : Session} (taken : s.step .dequeue = some s')
    : ∃ rest, s' = { s with sched := { s.sched with taskQueue := rest } } := by
  obtain ⟨⟨task, sched⟩, removed, rfl⟩ := Option.map_eq_some_iff.mp taken
  obtain ⟨rest, -, rfl⟩ := State.dequeue?_spec removed
  exact ⟨rest, rfl⟩

theorem step_quiet {s' : Session} {call : Call} (taken : s.step call = some s')
    (ordinary
      : ∀ uuid actionDigest skipCache nodeIDOverride now receiver,
          call ≠ .enqueue uuid actionDigest skipCache nodeIDOverride now receiver)
    : Quiet s s' := by
  have same {sched : State} (operations : sched.operations = s.sched.operations)
      (heap : sched.heap = s.sched.heap) (nextOp : sched.nextOp = s.sched.nextOp)
      (nodeID : sched.nodeID = s.sched.nodeID)
      : Quiet s { s with sched } :=
    ⟨rfl, nodeID, nextOp, fun ref => by rw [heap], fun found => operations ▸ found⟩
  cases call with
  | enqueue uuid actionDigest skipCache nodeIDOverride now receiver =>
      exact (ordinary _ _ _ _ _ _ rfl).elim
  | dequeue =>
      obtain ⟨rest, rfl⟩ := step_dequeue taken
      exact same rfl rfl rfl rfl
  | updateState name state metadata now =>
      obtain rfl := Option.some.inj taken
      exact .of_rewrite (State.updateState_rewrite ..) (fun _ => rfl)
  | complete name result now =>
      obtain rfl := Option.some.inj taken
      exact .of_rewrite (State.finish_rewrite ..) (fun _ => rfl)
  | fail name error now =>
      obtain rfl := Option.some.inj taken
      exact .of_rewrite (State.finish_rewrite ..) (fun _ => rfl)
  | cancelOperation name now =>
      obtain rfl := Option.some.inj taken
      exact .of_rewrite (State.cancelOperation_rewrite ..) (State.cancelled_name now)
  | deleteOperation name =>
      obtain rfl := Option.some.inj taken
      exact .of_drops (State.deleteOperation_drops ..)
  | cleanupExpired now =>
      obtain rfl := Option.some.inj taken
      exact .of_drops (State.cleanupExpired_drops ..)
  | subscribe name =>
      obtain rfl := Option.some.inj taken
      exact same rfl rfl rfl rfl
  | unsubscribe name ch =>
      obtain rfl := Option.some.inj taken
      unfold State.unsubscribe
      split
      · exact same rfl rfl rfl rfl
      · exact same rfl rfl rfl rfl
  | receive ch =>
      obtain ⟨⟨ref, sched⟩, received, rfl⟩ := Option.map_eq_some_iff.mp taken
      unfold State.receive? at received
      split at received
      · cases received
      · obtain ⟨_, rfl⟩ := Prod.mk.inj (Option.some.inj received)
        exact same rfl rfl rfl rfl

theorem Valid.quiet {s' : Session} (valid : s.Valid) (quiet : Quiet s s') : s'.Valid where
  wellFormed := by
    refine ⟨fun found => ?_, fun found => ?_, fun left right same => ?_⟩
    · rw [quiet.nextOp]
      exact valid.wellFormed.allocated (quiet.sub found)
    · rw [quiet.names]
      exact valid.wellFormed.named (quiet.sub found)
    · rw [quiet.nextOp] at left right
      rw [quiet.names, quiet.names] at same
      exact valid.wellFormed.distinct left right same
  issued ref below := by
    rw [quiet.names, quiet.issued]
    exact valid.issued ref (quiet.nextOp ▸ below)

theorem Valid.enqueue (valid : s.Valid) {uuid : UUID} (new : uuid ∉ s.issued)
    (actionDigest : Digest) (skipCache : Bool) (nodeIDOverride : String) (now : Int)
    (receiver : Bool)
    : Valid {
        sched := (s.sched.enqueue uuid actionDigest skipCache nodeIDOverride now receiver).1
        issued := uuid :: s.issued
      } := by
  have older (ref : OpRef) (below : ref < s.sched.nextOp)
      : ∃ nodePrefix,
          ∃ drawn ∈ uuid :: s.issued,
            (s.sched.heap ref).name = operationName (operationID nodePrefix drawn) := by
    obtain ⟨nodePrefix, drawn, member, name⟩ := valid.issued ref below
    exact ⟨nodePrefix, drawn, List.mem_cons_of_mem _ member, name⟩
  cases offered : s.sched.offerTask?
      (s.sched.newTask uuid actionDigest skipCache nodeIDOverride now) receiver with
  | none =>
      rw [State.enqueue_full offered]
      exact ⟨valid.wellFormed, older⟩
  | some sent =>
      rw [State.enqueue_sent offered]
      obtain ⟨operations, heap, nextOp, _⟩ := State.offerTask?_records offered
      have sentWf : sent.WellFormed :=
        valid.wellFormed.of_sub (fun found => operations ▸ found) heap nextOp
      refine ⟨sentWf.insertStatus ?_, ?_⟩
      · intro ref below
        rw [heap]
        exact valid.fresh new _ ref (nextOp ▸ below)
      · intro ref below
        rcases Nat.lt_succ_iff_lt_or_eq.mp below with old | rfl
        · have kept : (sent.insertStatus (State.newStatus
              (s.sched.newTask uuid actionDigest skipCache nodeIDOverride now))).heap ref
              = s.sched.heap ref := by
            simp [State.insertStatus, Function.update_of_ne (Nat.ne_of_lt old), heap]
          dsimp only
          rw [kept]
          exact older ref (nextOp ▸ old)
        · refine ⟨if nodeIDOverride ≠ "" then nodeIDOverride else s.sched.nodeID, uuid,
            List.mem_cons_self, ?_⟩
          simp [State.insertStatus, State.newStatus, Task.name, State.newTask]

theorem valid_inductive : machine.Inductive Lib.Machine.anyStep Valid where
  start s initial := by
    obtain ⟨queueSize, nodeID, rfl⟩ := initial
    exact ⟨State.newScheduler_wellFormed queueSize nodeID, fun ref below => by
      simp [newScheduler] at below⟩
  keeps s call s' valid _ taken := by
    have taken : s.step call = some s' := taken
    cases call with
    | enqueue uuid actionDigest skipCache nodeIDOverride now receiver =>
        simp only [step] at taken
        split at taken
        · cases taken
        next new =>
          obtain rfl := Option.some.inj taken
          exact valid.enqueue new actionDigest skipCache nodeIDOverride now receiver
    | dequeue | updateState | complete | fail | cancelOperation | deleteOperation
    | cleanupExpired | subscribe | unsubscribe | receive =>
        exact valid.quiet (step_quiet taken (fun _ _ _ _ _ _ => by simp))

end Session

end GoREgo.Scheduler
