import GoREgo.Execution.Subscriptions
import GoREgo.Execution.Terminal

/-! A stream that ends without an error ends with its only completed message, provided that
no operation is completed or reopened while a handler stands between the snapshot that it
sends and the state check that ends its loop.
-/

namespace GoREgo.Execution

open Scheduler

/-- The last message reports a completed operation and no earlier one does. -/
def EndsDone (sent : List Operation) : Prop :=
  ∃ earlier op, sent = earlier ++ [op] ∧ op.done = true ∧ ∀ old ∈ earlier, old.done = false

def Pc.decides : Pc → Option OpRef
  | .sending _ _ update _ | .checking _ _ update => some update
  | _ => none

/-- What a handler has sent so far, by where it stands. Between the snapshot and the check
the snapshot agrees with the record on whether the operation is completed.
-/
def Handler.Streams (handler : Handler) (sched : State) : Prop :=
  match handler.pc with
  | .idle => handler.sent = []
  | .enqueueing _ request => handler.sent = [] ∧ handler.kind = request.kind
  | .completing _ _ | .fetching _ => handler.kind = .executeCached
  | .replying op => handler.kind = .executeCached ∨ (handler.sent = [] ∧ op.done = true)
  | .subscribing _ first => handler.sent = [] ∧ ∀ op, first = some op → op.done = false
  | .greeting _ _ op => handler.sent = [] ∧ op.done = false
  | .receiving _ _ | .received _ _ _ => ∀ op ∈ handler.sent, op.done = false
  | .sending _ _ update op =>
      (∀ old ∈ handler.sent, old.done = false)
      ∧ (op.done = true ↔ (sched.heap update).state = .completed)
  | .checking _ _ update =>
      ∃ earlier op, handler.sent = earlier ++ [op]
        ∧ (∀ old ∈ earlier, old.done = false)
        ∧ (op.done = true ↔ (sched.heap update).state = .completed)
  | .unsubscribing _ _ result => result = none → EndsDone handler.sent
  | .returned result =>
      result = none → handler.kind = .executeCached ∨ EndsDone handler.sent

theorem Handler.Streams.carry {handler : Handler} {sched sched' : State}
    (streams : handler.Streams sched)
    (same
      : ∀ ref, handler.pc.decides = some ref
        → ((sched'.heap ref).state = .completed ↔ (sched.heap ref).state = .completed))
    : handler.Streams sched' := by
  unfold Handler.Streams at streams ⊢
  cases pc : handler.pc <;> simp only [pc] at streams ⊢
  case sending name ch update op =>
    rw [same update (by rw [pc]; rfl)]
    exact streams
  case checking name ch update =>
    rw [same update (by rw [pc]; rfl)]
    exact streams
  all_goals exact streams

theorem toProto_done {op : OperationStatus}
    : (State.toProto op).done = true ↔ op.state = .completed := by
  simp [State.toProto]

namespace System

variable {W H : Type} {s s' : System W H} {label : Label W H}

def Flips (s : System W H) (label : Label W H) (ref : OpRef) : Prop :=
  match label with
  | .updateState w _ =>
      match s.workers w with
      | .dequeued task =>
          s.sched.operations.lookup task.name = some ref
          ∧ (s.sched.heap ref).state = .completed
      | _ => False
  | .finish w _ _ =>
      match s.workers w with
      | .executing task =>
          s.sched.operations.lookup task.name = some ref
          ∧ (s.sched.heap ref).state ≠ .completed
      | _ => False
  | .handler h (.complete _) =>
      match (s.handlers h).pc with
      | .completing name _ =>
          s.sched.operations.lookup name = some ref
          ∧ (s.sched.heap ref).state ≠ .completed
      | _ => False
  | .cancelOperation name _ =>
      s.sched.operations.lookup name = some ref ∧ (s.sched.heap ref).state = .queued
  | _ => False

/-- The step completes or reopens no record that a handler is about to check. -/
def SparesChecks (s : System W H) (label : Label W H) : Prop :=
  ∀ h ref, (s.handlers h).pc.decides = some ref → ¬ s.Flips label ref

instance (s : System W H) (label : Label W H) (ref : OpRef)
    : Decidable (s.Flips label ref) :=
  match label with
  | .updateState w _ => by
      dsimp only [Flips]
      generalize s.workers w = worker
      exact match worker with
        | .dequeued _ => inferInstanceAs (Decidable (_ ∧ _))
        | .idle | .executing _ => inferInstanceAs (Decidable False)
  | .finish w _ _ => by
      dsimp only [Flips]
      generalize s.workers w = worker
      exact match worker with
        | .executing _ => inferInstanceAs (Decidable (_ ∧ _))
        | .idle | .dequeued _ => inferInstanceAs (Decidable False)
  | .handler h (.complete _) => by
      dsimp only [Flips]
      generalize (s.handlers h).pc = pc
      exact match pc with
        | .completing .. => inferInstanceAs (Decidable (_ ∧ _))
        | .idle | .enqueueing .. | .fetching _ | .replying _ | .subscribing .. | .greeting ..
        | .receiving .. | .received .. | .sending .. | .checking .. | .unsubscribing ..
        | .returned _ => inferInstanceAs (Decidable False)
  | .cancelOperation .. => inferInstanceAs (Decidable (_ ∧ _))
  | .handler _ .getOperation | .handler _ (.send _) | .handler _ .subscribe
  | .handler _ (.receive _) | .handler _ (.check _) | .handler _ .unsubscribe
  | .handler _ (.waitExecution _) | .enqueue .. | .insert _ | .dequeue _ | .deleteOperation _
  | .cleanupExpired _ => inferInstanceAs (Decidable False)

instance [Fintype H] (s : System W H) (label : Label W H)
    : Decidable (s.SparesChecks label) :=
  decidable_of_iff
    (∀ h, ((s.handlers h).pc.decides).all (fun ref => decide (¬ s.Flips label ref)) = true)
    (by
      constructor
      · intro spares h ref decides
        have spared := spares h
        rw [decides] at spared
        exact of_decide_eq_true spared
      · intro spares h
        cases decides : (s.handlers h).pc.decides with
        | none => rfl
        | some ref => exact decide_eq_true (spares h ref decides))

theorem Streams.moved (owned : s.Owned) (subscribed : s.Subscribed) {h : H} {move : Move}
    {sched' : State} {handler' : Handler}
    (moved : (s.handlers h).Moved s.sched move sched' handler')
    (streams : (s.handlers h).Streams s.sched)
    : handler'.Streams sched' := by
  cases moved with
  | complete pc | fetch pc =>
      simp only [Handler.Streams, pc] at streams
      first | exact streams | exact Or.inl streams
  | fetchGone pc | replyFailed pc | greetFailed pc | reportFailed pc | waitGone pc =>
      intro failed
      cases failed
  | skip pc =>
      simp only [Handler.Streams, pc] at streams
      exact streams
  | @snapshot name ch update op pc found =>
      simp only [Handler.Streams, pc] at streams
      refine ⟨streams, ?_⟩
      obtain ⟨ref, tracked, rfl⟩ := State.getOperation_ok found
      -- the pointer that was received leads to the record that the name leads to
      have held : Carries s.sched update name := subscribed.holds (h := h) (by rw [pc]; rfl)
      have same : ref = update := by
        apply owned.wellFormed.distinct (owned.wellFormed.allocated tracked) held.1
        rw [owned.wellFormed.named tracked, held.2]
      rw [same]
      exact toProto_done
  | reply pc =>
      simp only [Handler.Streams, pc] at streams
      intro _
      rcases streams with cached | ⟨empty, done⟩
      · exact Or.inl cached
      · exact Or.inr ⟨[], _, by rw [empty], done, by simp⟩
  | greet pc =>
      simp only [Handler.Streams, pc] at streams
      intro op member
      dsimp only at member
      rw [streams.1] at member
      obtain rfl := List.mem_singleton.mp member
      exact streams.2
  | report pc =>
      simp only [Handler.Streams, pc] at streams
      exact ⟨_, _, rfl, streams.1, streams.2⟩
  | @subscribe name first pc =>
      simp only [Handler.Streams, pc] at streams
      cases first with
      | none =>
          intro op member
          dsimp only at member
          rw [streams.1] at member
          cases member
      | some op => exact ⟨streams.1, streams.2 op rfl⟩
  | receive pc got =>
      simp only [Handler.Streams, pc] at streams
      exact streams
  | @closed name ch cancelled pc closed =>
      have isOpen := subscribed.isOpen (h := h) (by rw [pc]; rfl)
      rw [isOpen] at closed
      cases closed
  | stop pc done =>
      simp only [Handler.Streams, pc] at streams
      obtain ⟨earlier, op, sent, quiet, agrees⟩ := streams
      intro _
      exact ⟨earlier, op, sent, agrees.mpr done, quiet⟩
  | resume pc running =>
      simp only [Handler.Streams, pc] at streams
      obtain ⟨earlier, op, sent, quiet, agrees⟩ := streams
      intro old member
      dsimp only at member
      rw [sent] at member
      rcases List.mem_append.mp member with before | last
      · exact quiet old before
      · obtain rfl := List.mem_singleton.mp last
        exact Bool.eq_false_iff.mpr (fun done => running (agrees.mp done))
  | unsubscribe pc =>
      simp only [Handler.Streams, pc] at streams
      intro normal
      exact Or.inr (streams normal)
  | waitDone pc found done =>
      simp only [Handler.Streams, pc] at streams
      exact Or.inr ⟨streams, done⟩
  | wait pc found running =>
      simp only [Handler.Streams, pc] at streams
      exact ⟨streams, fun op none => by cases none⟩

variable [DecidableEq W] [DecidableEq H]

theorem Effect.completed_iff (effect : s.Effect label s') {ref : OpRef}
    (below : ref < s.sched.nextOp) (still : ¬ s.Flips label ref)
    : (s'.sched.heap ref).state = .completed ↔ (s.sched.heap ref).state = .completed := by
  have rewritten {sched' : State} {name : String} {change : OperationStatus → OperationStatus}
      (rewrite : s.sched.Rewrite sched' name change)
      (here
        : s.sched.operations.lookup name = some ref
          → ((change (s.sched.heap ref)).state = .completed
            ↔ (s.sched.heap ref).state = .completed))
      : (sched'.heap ref).state = .completed ↔ (s.sched.heap ref).state = .completed := by
    by_cases found : s.sched.operations.lookup name = some ref
    · rw [rewrite.here found]
      exact here found
    · rw [rewrite.others found]
  cases effect with
  | full | sent | handed | dequeue | cleanupExpired => exact Iff.rfl
  | insert pc locked =>
      dsimp only
      rw [State.heap_insertStatus_old below]
  | quiet moved unlocked other same before after =>
      dsimp only
      rw [same.heap]
  | completed unlocked pc =>
      refine rewritten (State.finish_rewrite ..) (fun found => ?_)
      simp only [Flips, pc, found, true_and, not_not] at still
      simp [still]
  | updateState held unlocked =>
      refine rewritten (State.updateState_rewrite ..) (fun found => ?_)
      simp only [Flips, held, found, true_and] at still
      simp [still]
  | @finish w outcome now task runs unlocked =>
      obtain ⟨record, rewrite⟩ := finishTask_rewrite s.sched task outcome now
      refine rewritten rewrite (fun found => ?_)
      simp only [Flips, runs, found, true_and, not_not] at still
      simp [still]
  | cancelOperation unlocked =>
      refine rewritten (State.cancelOperation_rewrite ..) (fun found => ?_)
      simp only [Flips, found, true_and] at still
      rw [State.cancelled, if_neg still]
  | deleteOperation unlocked => rw [(State.deleteOperation_drops ..).heap]

theorem Streams.effect (owned : s.Owned) (subscribed : s.Subscribed)
    (spares : s.SparesChecks label) (effect : s.Effect label s')
    (streams : ∀ h, (s.handlers h).Streams s.sched) (h : H)
    : (s'.handlers h).Streams s'.sched := by
  -- a handler that does not move only sees the records change
  have stays (h : H) : (s.handlers h).Streams s'.sched := by
    refine (streams h).carry (fun ref decides => ?_)
    have held : ∃ name, (s.handlers h).pc.holds = some (name, ref) := by
      cases pc : (s.handlers h).pc <;> rw [pc] at decides <;> cases decides <;>
        exact ⟨_, rfl⟩
    obtain ⟨name, held⟩ := held
    exact effect.completed_iff (subscribed.holds held).1 (spares h ref decides)
  have moves {h' : H} {handler' : Handler} (here : handler'.Streams s'.sched)
      : (Function.update s.handlers h' handler' h).Streams s'.sched := by
    by_cases same : h = h'
    · subst same
      rwa [Function.update_self]
    · rw [Function.update_of_ne same]
      exact stays h
  cases effect with
  | full unlocked idle fresh =>
      refine moves (fun failed => ?_)
      cases failed
  | @sent h' request uuid now waiting unlocked idle fresh room
  | @handed h' request uuid now w unlocked idle fresh unbuffered waits =>
      have before := streams h'
      simp only [Handler.Streams, idle] at before
      exact moves ⟨before, rfl⟩
  | @insert h' task request pc locked =>
      have before := streams h'
      simp only [Handler.Streams, pc] at before
      refine moves ?_
      cases request with
      | cached digest result => exact before.2
      | execute digest skip origin =>
          refine ⟨before.1, fun op first => ?_⟩
          obtain rfl := Option.some.inj first
          rfl
  | quiet moved unlocked other same before after =>
      exact moves (Streams.moved owned subscribed moved (streams _))
  | @completed h' now name result unlocked pc =>
      have before := streams h'
      simp only [Handler.Streams, pc] at before
      exact moves before
  | dequeue | updateState | finish | cancelOperation | deleteOperation | cleanupExpired =>
      exact stays h

/-- In every run that completes and reopens no operation under a handler's check, a local
`Execute`, `executeLocally` or `WaitExecution` handler that returned without an error has
sent exactly one completed message, the last one.
-/
theorem stream_ends_done (reach : machine.Reachable SparesChecks s) {h : H}
    (local' : (s.handlers h).kind ≠ .executeCached)
    (returned : (s.handlers h).pc = .returned none)
    : EndsDone (s.handlers h).sent := by
  have kept : (machine : Lib.Machine (System W H) (Label W H)).Inductive SparesChecks
      (fun s => (s.Owned ∧ s.Subscribed) ∧ ∀ h, (s.handlers h).Streams s.sched) := by
    refine subscribed_inductive.restrict.strengthen ?_ ?_
    · rintro s ⟨queueSize, nodeID, rfl⟩ h
      rfl
    · intro s label s' both streams spares taken h
      exact Streams.effect both.1 both.2 spares (step_effect taken) streams h
  have streams := (kept.reachable reach).2 h
  simp only [Handler.Streams, returned] at streams
  exact (streams trivial).resolve_left local'

end System

def executeOne : List (Label (Fin 2) (Fin 2)) :=
  System.enqueueOne (.execute sampleDigest false "")
    ++ [.handler 0 .subscribe, .handler 0 (.send none), .dequeue 0, .updateState 0 1]

def loopOnce : List (Label (Fin 2) (Fin 2)) :=
  [.handler 0 (.receive false), .handler 0 .getOperation, .handler 0 (.send none),
    .handler 0 (.check false), .handler 0 .unsubscribe]

namespace System

/-- A handler that loops after the completion ends its stream with the completed message.
-/
theorem loop_after_completion_ends_done
    : ∃ s : System (Fin 2) (Fin 2),
        machine.Reachable SparesChecks s
        ∧ (s.handlers 0).pc = .returned none ∧ EndsDone (s.handlers 0).sent := by
  let labels := executeOne ++ [.finish 0 (.error (.plain "exit")) 2] ++ loopOnce
  obtain ⟨s, run, tested⟩ := Lib.Machine.exists_run_of_execIf machine SparesChecks testNode
    labels (fun s => (s.handlers 0).pc = .returned none ∧ (s.handlers 0).kind = .execute)
    (by decide)
  simp only [Bool.decide_and, Bool.and_eq_true, decide_eq_true_eq] at tested
  have reach : machine.Reachable SparesChecks s :=
    ⟨testNode, labels, ⟨100, "test-node", rfl⟩, run⟩
  exact ⟨s, reach, tested.1, stream_ends_done reach (by simp [tested.2]) tested.1⟩

/-- A completion between the snapshot and the check ends the stream without a completed
message.
-/
theorem completion_before_check_not_done
    : ¬ ∀ (s : System (Fin 2) (Fin 2)) h,
        machine.Reachable Lib.Machine.anyStep s
        → (s.handlers h).kind ≠ .executeCached
        → (s.handlers h).pc = .returned none
        → EndsDone (s.handlers h).sent := by
  intro always
  let labels : List (Label (Fin 2) (Fin 2)) :=
    executeOne
      ++ [.handler 0 (.receive false), .handler 0 .getOperation, .handler 0 (.send none),
        .finish 0 (.error (.plain "exit")) 2, .handler 0 (.check false),
        .handler 0 .unsubscribe]
  obtain ⟨s, run, tested⟩ := Lib.Machine.exists_run_of_exec machine testNode labels
    (fun s => (s.handlers 0).pc = .returned none ∧ (s.handlers 0).kind = .execute
      ∧ (s.handlers 0).sent.all (fun op => op.done = false) = true) (by decide)
  simp only [Bool.decide_and, Bool.and_eq_true, decide_eq_true_eq] at tested
  obtain ⟨returned, kind, quiet⟩ := tested
  obtain ⟨earlier, op, sent, done, _⟩ :=
    always s 0 ⟨testNode, labels, ⟨100, "test-node", rfl⟩, run⟩ (by simp [kind]) returned
  have last := List.all_eq_true.mp quiet op (by rw [sent]; simp)
  simp [done] at last

end System

end GoREgo.Execution
