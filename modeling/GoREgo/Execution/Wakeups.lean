import GoREgo.Execution.Subscriptions
import GoREgo.Execution.StreamDone

/-! A handler that waits on an empty channel waits for an operation that can still notify
it, provided that no operation is removed under a handler that needs it. The update loop
ignores a missing operation, and removal neither notifies nor closes a channel.
-/

namespace GoREgo.Execution

open Scheduler

def Pc.subject : Pc → Option String
  | .subscribing name _ => some name
  | pc => pc.listens.map Prod.fst

def Pc.expects : Pc → Option (String × ChanRef)
  | .greeting name ch _ | .receiving name ch => some (name, ch)
  | _ => none

/-- The operation that a handler still needs: after the snapshot only a record that is not
completed leads back to the receive.
-/
def Pc.needs (pc : Pc) (sched : State) : Option String :=
  match pc with
  | .subscribing name _ | .greeting name _ _ | .receiving name _ | .received name _ _ =>
      some name
  | .sending name _ update _ | .checking name _ update =>
      if (sched.heap update).state = .completed then none else some name
  | _ => none

/-- A handler's operation is tracked for as long as the handler needs it, its channel is
registered for as long as the operation is tracked, and a completed operation has left a
pointer in the channel.
-/
structure Pc.Awaits (pc : Pc) (sched : State) : Prop where
  known : ∀ {name}, pc.subject = some name → ∃ ref, Carries sched ref name
  tracked
    : ∀ {name}, pc.needs sched = some name → (sched.operations.lookup name).isSome = true
  registered
    : ∀ {name ch}, pc.listens = some (name, ch)
      → (sched.operations.lookup name).isSome = true
      → ch ∈ sched.subscribers name
  filled
    : ∀ {name ch ref}, pc.expects = some (name, ch)
      → sched.operations.lookup name = some ref
      → (sched.heap ref).state = .completed
      → (sched.chans ch).buffer ≠ []

variable {pc : Pc} {name : String}

theorem Pc.subject_of_listens {ch : ChanRef} (listens : pc.listens = some (name, ch))
    : pc.subject = some name := by
  cases pc <;> cases listens <;> rfl

theorem Pc.listens_of_expects {ch : ChanRef} (expects : pc.expects = some (name, ch))
    : pc.listens = some (name, ch) := by
  cases pc <;> cases expects <;> rfl

/-- A need is there before and after, or it depends on the record behind the pointer that
the handler holds.
-/
theorem Pc.needs_cases {sched sched' : State} (needs : pc.needs sched' = some name)
    : pc.needs sched = some name
      ∨ ∃ update, pc.holds = some (name, update)
          ∧ (sched.heap update).state = .completed
          ∧ (sched'.heap update).state ≠ .completed := by
  cases pc with
  | sending other ch update op | checking other ch update =>
      simp only [Pc.needs] at needs ⊢
      split at needs
      · cases needs
      next running =>
        cases needs
        by_cases done : (sched.heap update).state = .completed
        · exact Or.inr ⟨update, rfl, done, running⟩
        · exact Or.inl (if_neg done)
  | subscribing | greeting | receiving | received => exact Or.inl needs
  | idle | enqueueing | completing | fetching | replying | unsubscribing | returned =>
      cases needs

theorem Pc.subject_of_needs {sched : State} (needs : pc.needs sched = some name)
    : pc.subject = some name := by
  cases pc <;> simp only [Pc.needs, reduceCtorEq] at needs <;> try exact needs
  all_goals
    split at needs <;> cases needs
    rfl

namespace Pc.Awaits

variable {pc : Pc} {sched sched' : State}

theorem same (awaits : pc.Awaits sched) (operations : sched'.operations = sched.operations)
    (heap : sched'.heap = sched.heap) (nextOp : sched'.nextOp = sched.nextOp)
    (registered
      : ∀ {name ch}, pc.listens = some (name, ch)
        → ch ∈ sched.subscribers name
        → ch ∈ sched'.subscribers name)
    (chans
      : ∀ {name ch}, pc.listens = some (name, ch) → sched'.chans ch = sched.chans ch)
    : pc.Awaits sched' where
  known subject := by
    obtain ⟨ref, below, name⟩ := awaits.known subject
    exact ⟨ref, nextOp ▸ below, heap ▸ name⟩
  tracked {name} needs := by
    have before : pc.needs sched = some name := by
      unfold Pc.needs at needs ⊢
      rwa [heap] at needs
    rw [operations]
    exact awaits.tracked before
  registered listens tracked := by
    rw [operations] at tracked
    exact registered listens (awaits.registered listens tracked)
  filled expects tracked done := by
    rw [operations] at tracked
    rw [heap] at done
    rw [chans (Pc.listens_of_expects expects)]
    exact awaits.filled expects tracked done

theorem rewrite (awaits : pc.Awaits sched) (wf : sched.WellFormed) {name : String}
    {change : OperationStatus → OperationStatus} (rewrite : sched.Rewrite sched' name change)
    (names : ∀ op, (change op).name = op.name) (notifies : sched.Notifies sched' name)
    (held : ∀ {other ref}, pc.holds = some (other, ref) → Carries sched ref other)
    : pc.Awaits sched' where
  known subject := by
    obtain ⟨ref, below, carried⟩ := awaits.known subject
    exact ⟨ref, rewrite.nextOp ▸ below, (rewrite.names names ref).trans carried⟩
  tracked {other} needs := by
    rw [rewrite.operations]
    rcases Pc.needs_cases needs with before | ⟨update, holds, done, running⟩
    · exact awaits.tracked before
    · -- the record was reopened, so it is tracked, and under its own name
      by_cases here : sched.operations.lookup name = some update
      · have same : name = other := (wf.named here).symm.trans (held holds).2
        rw [← same, here]
        rfl
      · rw [rewrite.others here] at running
        exact (running done).elim
  registered listens tracked := by
    rw [rewrite.operations] at tracked
    rw [notifies.subscribers]
    exact awaits.registered listens tracked
  filled {other ch ref} expects tracked done := by
    rw [rewrite.operations] at tracked
    have registered := awaits.registered (Pc.listens_of_expects expects) (by rw [tracked]; rfl)
    rcases notifies.wakes with same | wakes
    · rw [same] at done ⊢
      exact awaits.filled expects tracked done
    · by_cases here : other = name
      · exact wakes (here ▸ registered)
      · rw [rewrite.apart wf tracked here] at done
        exact notifies.keeps (awaits.filled expects tracked done)

theorem drops (awaits : pc.Awaits sched) (drops : sched.Drops sched')
    (needed
      : ∀ {name}, pc.needs sched = some name
        → sched'.operations.lookup name = sched.operations.lookup name)
    (subscribers
      : ∀ {name ref}, sched'.operations.lookup name = some ref
        → sched'.subscribers name = sched.subscribers name)
    (chans : sched'.chans = sched.chans)
    : pc.Awaits sched' where
  known subject := by
    obtain ⟨ref, below, name⟩ := awaits.known subject
    exact ⟨ref, drops.nextOp ▸ below, drops.heap ▸ name⟩
  tracked {name} needs := by
    have before : pc.needs sched = some name := by
      unfold Pc.needs at needs ⊢
      rwa [drops.heap] at needs
    rw [needed before]
    exact awaits.tracked before
  registered {name ch} listens tracked := by
    obtain ⟨ref, found⟩ := Option.isSome_iff_exists.mp tracked
    rw [subscribers found]
    exact awaits.registered listens (by rw [drops.sub found]; rfl)
  filled expects tracked done := by
    rw [drops.heap] at done
    rw [chans]
    exact awaits.filled expects (drops.sub tracked) done

theorem insert (awaits : pc.Awaits sched) (wf : sched.WellFormed) {op : OperationStatus}
    (fresh : ∀ ref, ref < sched.nextOp → (sched.heap ref).name ≠ op.name)
    (held : ∀ {other ref}, pc.holds = some (other, ref) → Carries sched ref other)
    : pc.Awaits (sched.insertStatus op) := by
  have lookup {name : String} (subject : pc.subject = some name)
      : (sched.insertStatus op).operations.lookup name = sched.operations.lookup name := by
    obtain ⟨ref, below, carried⟩ := awaits.known subject
    have apart : name ≠ op.name := carried ▸ fresh ref below
    rw [State.lookup_insertStatus, if_neg apart]
  refine ⟨?_, ?_, ?_, ?_⟩
  · intro name subject
    obtain ⟨ref, below, carried⟩ := awaits.known subject
    exact ⟨ref, Nat.lt_succ_of_lt below, by rwa [State.heap_insertStatus_old below]⟩
  · intro name needs
    rw [lookup (Pc.subject_of_needs needs)]
    rcases Pc.needs_cases needs with before | ⟨update, holds, done, running⟩
    · exact awaits.tracked before
    · rw [State.heap_insertStatus_old (held holds).1] at running
      exact (running done).elim
  · intro name ch listens tracked
    rw [lookup (Pc.subject_of_listens listens)] at tracked
    exact awaits.registered listens tracked
  · intro name ch ref expects tracked done
    rw [lookup (Pc.subject_of_listens (Pc.listens_of_expects expects))] at tracked
    rw [State.heap_insertStatus_old (wf.allocated tracked)] at done
    exact awaits.filled expects tracked done

theorem of_none (none : pc.subject = none) : pc.Awaits sched := by
  have listens (topic : String × ChanRef) : pc.listens ≠ some topic := by
    intro listens
    rw [Pc.subject_of_listens listens] at none
    cases none
  refine ⟨?_, ?_, ?_, ?_⟩
  · intro name subject
    rw [none] at subject
    cases subject
  · intro name needs
    rw [Pc.subject_of_needs needs] at none
    cases none
  · intro name ch here
    exact (listens _ here).elim
  · intro name ch ref expects
    exact (listens _ (Pc.listens_of_expects expects)).elim

end Pc.Awaits

namespace System

variable {W H : Type} {s s' : System W H} {label : Label W H}

theorem Awaits.moved (owned : s.Owned) (subscribed : s.Subscribed) {h : H} {move : Move}
    {sched' : State} {handler' : Handler}
    (moved : (s.handlers h).Moved s.sched move sched' handler')
    (awaits : (s.handlers h).pc.Awaits s.sched)
    : handler'.pc.Awaits sched' := by
  have carries {name : String} {ref : OpRef}
      (tracked : s.sched.operations.lookup name = some ref)
      : Carries s.sched ref name :=
    ⟨owned.wellFormed.allocated tracked, owned.wellFormed.named tracked⟩
  cases moved with
  | complete pc | fetchGone pc | fetch pc | reply pc | replyFailed pc | unsubscribe pc
  | waitGone pc | waitDone pc =>
      exact .of_none rfl
  | @skip name ch update err pc gone =>
      -- the operation is tracked, so `GetOperation` finds it
      rw [pc] at awaits
      obtain ⟨ref, tracked⟩ := Option.isSome_iff_exists.mp (awaits.tracked rfl)
      simp [State.getOperation, tracked] at gone
  | @snapshot name ch update op pc found =>
      rw [pc] at awaits
      refine ⟨awaits.known, ?_, awaits.registered, fun h => by cases h⟩
      intro other needs
      simp only [Pc.needs] at needs
      split at needs <;> cases needs
      exact awaits.tracked rfl
  | greet pc | report pc =>
      rw [pc] at awaits
      exact ⟨awaits.known, awaits.tracked, awaits.registered, awaits.filled⟩
  | greetFailed pc | reportFailed pc | closed pc | stop pc =>
      rw [pc] at awaits
      exact ⟨awaits.known, (fun h => by cases h), awaits.registered, fun h => by cases h⟩
  | @subscribe name first pc =>
      rw [pc] at awaits
      obtain ⟨ref, tracked⟩ := Option.isSome_iff_exists.mp (awaits.tracked rfl)
      have registered : s.sched.nextChan ∈ (s.sched.subscribe name).1.subscribers name := by
        simp [State.subscribe]
      have filled : ((s.sched.subscribe name).1.chans s.sched.nextChan).buffer ≠ [] := by
        simp [State.subscribe, tracked]
      cases first <;> (
        refine ⟨fun subject => ?_, fun needs => ?_, fun listens _ => ?_, fun expects _ _ => ?_⟩
        · cases subject
          exact ⟨ref, carries tracked⟩
        · cases needs
          exact awaits.tracked rfl
        · cases listens
          exact registered
        · cases expects
          exact filled)
  | receive pc got =>
      rw [pc] at awaits
      obtain ⟨rest, _, rfl⟩ := State.receive?_spec got
      exact ⟨awaits.known, awaits.tracked, awaits.registered, fun h => by cases h⟩
  | @resume name ch update cancelled pc running =>
      have held : Carries s.sched update name := subscribed.holds (h := h) (by rw [pc]; rfl)
      rw [pc] at awaits
      refine ⟨awaits.known, ?_, awaits.registered, ?_⟩
      · intro other needs
        cases needs
        exact awaits.tracked (if_neg running)
      · intro other ch' ref expects tracked done
        cases expects
        have same : ref = update := by
          apply owned.wellFormed.distinct (carries tracked).1 held.1
          rw [(carries tracked).2, held.2]
        rw [same] at done
        exact (running done).elim
  | @wait name op pc found running =>
      obtain ⟨ref, tracked, _⟩ := State.getOperation_ok found
      refine ⟨fun subject => ?_, fun needs => ?_, (fun h => by cases h), fun h => by cases h⟩
      · cases subject
        exact ⟨ref, carries tracked⟩
      · cases needs
        rw [tracked]
        rfl

theorem Awaits.others (subscribed : s.Subscribed) {h other : H} (apart : other ≠ h)
    {move : Move} {sched' : State} {handler' : Handler}
    (moved : (s.handlers h).Moved s.sched move sched' handler')
    (quiet : ∀ now, move ≠ .complete now)
    (awaits : (s.handlers other).pc.Awaits s.sched)
    : (s.handlers other).pc.Awaits sched' := by
  have elsewhere {name topic : String} {ch ch' : ChanRef}
      (here : (s.handlers h).pc.listens = some (name, ch))
      (there : (s.handlers other).pc.listens = some (topic, ch'))
      : ch' ≠ ch :=
    fun same => apart (subscribed.own there (same ▸ here))
  cases moved with
  | complete pc => exact (quiet _ rfl).elim
  | subscribe pc =>
      exact awaits.same rfl rfl rfl (fun _ member => State.mem_subscribe member)
        (fun listens => State.chans_subscribe (subscribed.allocated listens))
  | receive pc got =>
      obtain ⟨rest, _, rfl⟩ := State.receive?_spec got
      refine awaits.same rfl rfl rfl (fun _ member => member) (fun listens => ?_)
      exact Function.update_of_ne (elsewhere (by rw [pc]; rfl) listens) ..
  | @unsubscribe name ch result pc =>
      have here : (s.handlers h).pc.listens = some (name, ch) := by
        rw [pc]
        rfl
      have same := unsubscribe_sameRecords s.sched name ch
      exact awaits.same same.operations same.heap same.nextOp
        (fun listens => State.mem_unsubscribe_of_ne (elsewhere here listens))
        (fun listens => State.chans_unsubscribe (elsewhere here listens))
  | fetchGone | fetch | skip | snapshot | reply | replyFailed | greet | greetFailed | report
  | reportFailed | closed | stop | resume | waitGone | waitDone | wait =>
      exact awaits

def Removes (s : System W H) (label : Label W H) (name : String) : Prop :=
  match label with
  | .deleteOperation other => other = name
  | .cleanupExpired now => s.sched.expired now name = true
  | _ => False

def SparesWaiters (s : System W H) (label : Label W H) : Prop :=
  ∀ h name, (s.handlers h).pc.needs s.sched = some name → ¬ s.Removes label name

instance (s : System W H) (label : Label W H) (name : String)
    : Decidable (s.Removes label name) :=
  match label with
  | .deleteOperation _ | .cleanupExpired _ => inferInstanceAs (Decidable (_ = _))
  | .enqueue .. | .insert _ | .handler .. | .dequeue _ | .updateState .. | .finish ..
  | .cancelOperation .. => inferInstanceAs (Decidable False)

instance [Fintype H] (s : System W H) (label : Label W H)
    : Decidable (s.SparesWaiters label) :=
  decidable_of_iff
    (∀ h, ((s.handlers h).pc.needs s.sched).all (fun name => decide (¬ s.Removes label name))
      = true)
    (by
      constructor
      · intro spares h name needs
        have spared := spares h
        rw [needs] at spared
        exact of_decide_eq_true spared
      · intro spares h
        cases needs : (s.handlers h).pc.needs s.sched with
        | none => rfl
        | some name => exact decide_eq_true (spares h name needs))

theorem Awaits.effect [DecidableEq W] [DecidableEq H] (owned : s.Owned)
    (subscribed : s.Subscribed) (spares : s.SparesWaiters label)
    (effect : s.Effect label s') (awaits : ∀ h, (s.handlers h).pc.Awaits s.sched) (h : H)
    : (s'.handlers h).pc.Awaits s'.sched := by
  have wf := owned.wellFormed
  have moves {sched' : State} {h' : H} {handler' : Handler}
      (here : handler'.pc.Awaits sched')
      (stays : h ≠ h' → (s.handlers h).pc.Awaits sched')
      : (Function.update s.handlers h' handler' h).pc.Awaits sched' := by
    by_cases same : h = h'
    · subst same
      rwa [Function.update_self]
    · rw [Function.update_of_ne same]
      exact stays same
  have held {other : String} {ref : OpRef}
      (holds : (s.handlers h).pc.holds = some (other, ref))
      : Carries s.sched ref other :=
    subscribed.holds holds
  have same {taskQueue : List Task}
      : (s.handlers h).pc.Awaits { s.sched with taskQueue } :=
    (awaits h).same rfl rfl rfl (fun _ member => member) (fun _ => rfl)
  cases effect with
  | full | handed => exact moves (.of_none rfl) (fun _ => awaits h)
  | sent => exact moves (.of_none rfl) (fun _ => same)
  | @insert h' task request pc locked =>
      obtain ⟨_, _, _, fresh⟩ := owned.inside (h := h') (by rw [pc]; rfl)
      refine moves ?_ (fun _ => (awaits h).insert wf fresh held)
      cases request with
      | cached digest result => exact .of_none rfl
      | execute digest skip origin =>
          have tracked : (s.sched.insertStatus (State.newStatus task)).operations.lookup
              task.name = some s.sched.nextOp := by
            rw [State.lookup_insertStatus, State.newStatus_name, if_pos rfl]
          refine ⟨fun subject => ?_, fun needs => ?_, nofun, nofun⟩
          · cases subject
            refine ⟨s.sched.nextOp, Nat.lt_succ_self _, ?_⟩
            rw [State.heap_insertStatus_new, State.newStatus_name]
          · cases needs
            rw [tracked]
            rfl
  | quiet moved unlocked other records before after =>
      exact moves (Awaits.moved owned subscribed moved (awaits _))
        (fun apart => Awaits.others subscribed apart moved other (awaits h))
  | completed unlocked pc =>
      refine moves (.of_none rfl) (fun _ => ?_)
      exact (awaits h).rewrite wf (State.finish_rewrite ..) (fun _ => rfl)
        (State.finish_notifies ..) held
  | dequeue => exact same
  | updateState =>
      exact (awaits h).rewrite wf (State.updateState_rewrite ..) (fun _ => rfl)
        (State.updateState_notifies ..) held
  | @finish w outcome now task runs unlocked =>
      cases outcome <;>
        exact (awaits h).rewrite wf (State.finish_rewrite ..) (fun _ => rfl)
          (State.finish_notifies ..) held
  | @cancelOperation name now unlocked =>
      exact (awaits h).rewrite wf (State.cancelOperation_rewrite ..)
        (State.cancelled_name now) (State.cancelOperation_notifies ..) held
  | @deleteOperation removed unlocked =>
      refine (awaits h).drops (State.deleteOperation_drops ..) ?_ ?_ ?_
      · intro name needs
        have kept : name ≠ removed := fun same => spares h name needs same.symm
        rw [State.lookup_deleteOperation, if_neg kept]
      · intro name ref _
        rw [State.deleteOperation_fst]
      · rw [State.deleteOperation_fst]
  | @cleanupExpired now unlocked =>
      refine (awaits h).drops (State.cleanupExpired_drops ..) ?_ ?_ rfl
      · intro name needs
        have kept : ¬ s.sched.expired now name = true := spares h name needs
        rw [State.lookup_cleanupExpired, if_neg kept]
      · intro name ref tracked
        rw [State.lookup_cleanupExpired] at tracked
        split at tracked
        · cases tracked
        next kept =>
          simp only [State.cleanupExpired]
          rw [if_neg (fun gone => kept (State.mem_gone.mp gone))]

/-- In every run that removes no operation under a handler that needs it, a handler whose
next receive finds its channel open and empty waits for a tracked operation that is not
completed, and its channel is registered for the operation's notifications.
-/
theorem waits_for_live_operation [DecidableEq W] [DecidableEq H]
    (reach : machine.Reachable SparesWaiters s) {h : H} {name : String} {ch : ChanRef}
    (waits : (s.handlers h).pc = .receiving name ch)
    (empty : (s.sched.chans ch).closed = false ∧ (s.sched.chans ch).buffer = [])
    : ∃ op, s.sched.status? name = some op ∧ op.state ≠ .completed
        ∧ ch ∈ s.sched.subscribers name := by
  have kept : (machine : Lib.Machine (System W H) (Label W H)).Inductive SparesWaiters
      (fun s => (s.Owned ∧ s.Subscribed) ∧ ∀ h, (s.handlers h).pc.Awaits s.sched) := by
    refine subscribed_inductive.restrict.strengthen ?_ ?_
    · rintro s ⟨queueSize, nodeID, rfl⟩ h
      exact .of_none rfl
    · intro s label s' both awaits spares taken h
      exact Awaits.effect both.1 both.2 spares (step_effect taken) awaits h
  have awaits := (kept.reachable reach).2 h
  rw [waits] at awaits
  obtain ⟨ref, tracked⟩ := Option.isSome_iff_exists.mp (awaits.tracked rfl)
  refine ⟨s.sched.heap ref, ?_, ?_, awaits.registered rfl (awaits.tracked rfl)⟩
  · rw [State.status?, tracked]
    rfl
  · intro done
    exact awaits.filled rfl tracked done empty.2

/-- A handler that has read its initial update waits for its executing operation. -/
theorem second_receive_waits
    : ∃ s : System (Fin 2) (Fin 2), ∃ ch op,
        machine.Reachable SparesWaiters s
        ∧ (s.handlers 0).pc = .receiving sampleName ch ∧ (s.sched.chans ch).buffer = []
        ∧ s.sched.status? sampleName = some op ∧ op.state ≠ .completed := by
  let labels : List (Label (Fin 2) (Fin 2)) :=
    enqueueOne (.execute sampleDigest false "")
      ++ [.handler 0 .subscribe, .handler 0 (.send none), .handler 0 (.receive false),
        .handler 0 .getOperation, .handler 0 (.send none), .handler 0 (.check false)]
  obtain ⟨s, run, tested⟩ := Lib.Machine.exists_run_of_execIf machine SparesWaiters testNode
    labels (fun s => (s.handlers 0).pc = .receiving sampleName 0
      ∧ (s.sched.chans 0).closed = false ∧ (s.sched.chans 0).buffer = []) (by decide)
  simp only [Bool.decide_and, Bool.and_eq_true, decide_eq_true_eq] at tested
  have reach : machine.Reachable SparesWaiters s :=
    ⟨testNode, labels, ⟨100, "test-node", rfl⟩, run⟩
  obtain ⟨op, status, running, _⟩ := waits_for_live_operation reach tested.1 tested.2
  exact ⟨s, 0, op, reach, tested.1, tested.2.2, status, running⟩

/-- Deleting an operation leaves its handler waiting on an empty channel. -/
theorem deleted_waits_for_nothing
    : ¬ ∀ (s : System (Fin 2) (Fin 2)) h name ch,
        machine.Reachable Lib.Machine.anyStep s
        → (s.handlers h).pc = .receiving name ch
        → (s.sched.chans ch).closed = false ∧ (s.sched.chans ch).buffer = []
        → ∃ op, s.sched.status? name = some op ∧ op.state ≠ .completed := by
  intro always
  let labels : List (Label (Fin 2) (Fin 2)) :=
    enqueueOne (.execute sampleDigest false "")
      ++ [.handler 0 .subscribe, .handler 0 (.send none), .handler 0 (.receive false),
        .handler 0 .getOperation, .handler 0 (.send none), .handler 0 (.check false),
        .deleteOperation sampleName]
  obtain ⟨s, run, tested⟩ := Lib.Machine.exists_run_of_exec machine testNode labels
    (fun s => (s.handlers 0).pc = .receiving sampleName 0
      ∧ ((s.sched.chans 0).closed = false ∧ (s.sched.chans 0).buffer = [])
      ∧ s.sched.status? sampleName = none) (by decide)
  simp only [Bool.decide_and, Bool.and_eq_true, decide_eq_true_eq] at tested
  obtain ⟨waits, empty, gone⟩ := tested
  obtain ⟨op, status, _⟩ := always s 0 sampleName 0
    ⟨testNode, labels, ⟨100, "test-node", rfl⟩, run⟩ waits empty
  rw [gone] at status
  cases status

end System

end GoREgo.Execution
