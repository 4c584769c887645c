import GoREgo.Execution.TaskOwnership

/-! A result from the action cache is answered through the task queue: `Execute` enqueues a
task, completes its operation itself and sends what `GetOperation` then reports. The queue has
to have room, and the task is there for workers to take; the answer is right when nobody
changes the operation between the handler's steps in a way that its report would show.
-/

namespace GoREgo.Execution

open Scheduler

def Delivers (result : ActionResult) (op : Operation) : Prop :=
  op.done = true ∧ op.result = .response { result, cachedResult := true }

/-- Where a handler is that answers from the action cache, what it has sent, and what the
record that it relies on says.
-/
inductive Answering (sched : State) (task : Task) (result : ActionResult) (handler : Handler)
    : Prop
  | enqueueing {actionDigest : Digest}
    (pc : handler.pc = .enqueueing task (.cached actionDigest result))
    (silent : handler.sent = [])
  | completing {ref : OpRef} (pc : handler.pc = .completing task.name result)
    (silent : handler.sent = []) (tracked : sched.operations.lookup task.name = some ref)
    (clean : (sched.heap ref).error = none)
  | fetching {ref : OpRef} (pc : handler.pc = .fetching task.name)
    (silent : handler.sent = []) (tracked : sched.operations.lookup task.name = some ref)
    (delivers : Delivers result (State.toProto (sched.heap ref)))
  | replying {op : Operation} (pc : handler.pc = .replying op) (silent : handler.sent = [])
    (delivers : Delivers result op)
  | returned {op : Operation} (pc : handler.pc = .returned none) (sent : handler.sent = [op])
    (delivers : Delivers result op)

def Worker.starts : Worker → Option String
  | .dequeued task => some task.name
  | _ => none

def Worker.runs : Worker → Option String
  | .executing task => some task.name
  | _ => none

theorem delivers_completed {op : OperationStatus} {result : ActionResult}
    (done : op.state = .completed) (clean : op.error = none)
    (cached : op.result = some { result, cachedResult := true })
    : Delivers result (State.toProto op) := by
  refine ⟨?_, ?_⟩
  · simp [State.toProto, done]
  · simp [State.toProto, State.outcome, done, clean, cached]

variable {sched sched' : State} {task : Task} {result : ActionResult} {handler : Handler}

/-- Only a handler before its `Complete` or its `GetOperation` relies on the record: on its
error, and then on its report.
-/
theorem Answering.carry (answering : Answering sched task result handler)
    (completing : ∀ ref, handler.pc = .completing task.name result →
      sched.operations.lookup task.name = some ref →
      sched'.operations.lookup task.name = some ref
        ∧ ((sched.heap ref).error = none → (sched'.heap ref).error = none))
    (fetching : ∀ ref, handler.pc = .fetching task.name →
      sched.operations.lookup task.name = some ref →
      sched'.operations.lookup task.name = some ref
        ∧ (Delivers result (State.toProto (sched.heap ref)) → sched'.heap ref = sched.heap ref))
    : Answering sched' task result handler := by
  cases answering with
  | enqueueing pc silent => exact .enqueueing pc silent
  | completing pc silent tracked clean =>
      obtain ⟨still, kept⟩ := completing _ pc tracked
      exact .completing pc silent still (kept clean)
  | fetching pc silent tracked delivers =>
      obtain ⟨still, same⟩ := fetching _ pc tracked
      exact .fetching pc silent still ((same delivers).symm ▸ delivers)
  | replying pc silent delivers => exact .replying pc silent delivers
  | returned pc sent delivers => exact .returned pc sent delivers

theorem Answering.busy (answering : Answering sched task result handler)
    : handler.pc ≠ .idle := by
  intro idle
  cases answering with
  | enqueueing pc | completing pc | fetching pc | replying pc | returned pc =>
      exact nomatch idle.symm.trans pc

theorem Answering.same (answering : Answering sched task result handler)
    (operations : sched'.operations = sched.operations) (heap : sched'.heap = sched.heap)
    : Answering sched' task result handler := by
  refine answering.carry (fun ref _ tracked => ?_) (fun ref _ tracked => ?_)
  all_goals
    rw [operations, heap]
    exact ⟨tracked, fun kept => by first | exact kept | rfl⟩

theorem Answering.apart (answering : Answering sched task result handler) {name : String}
    {change : OperationStatus → OperationStatus} (wf : sched.WellFormed)
    (rewrite : sched.Rewrite sched' name change) (distinct : task.name ≠ name)
    : Answering sched' task result handler := by
  refine answering.carry (fun ref _ tracked => ?_) (fun ref _ tracked => ?_)
  all_goals
    rw [rewrite.operations, rewrite.apart wf tracked distinct]
    exact ⟨tracked, fun kept => by first | exact kept | rfl⟩

theorem Answering.insert {other : Task} (answering : Answering sched task result handler)
    (wf : sched.WellFormed) (distinct : task.name ≠ other.name)
    : Answering (sched.insertStatus (State.newStatus other)) task result handler := by
  refine answering.carry (fun ref _ tracked => ?_) (fun ref _ tracked => ?_)
  all_goals
    rw [State.lookup_insertStatus, State.newStatus_name, if_neg distinct,
      State.heap_insertStatus_old (wf.allocated tracked)]
    exact ⟨tracked, fun kept => by first | exact kept | rfl⟩

theorem Answering.tracked (sched : State) (pc : handler.pc = .completing task.name result)
    (silent : handler.sent = [])
    : Answering (sched.insertStatus (State.newStatus task)) task result handler := by
  refine .completing pc silent (State.lookup_insertStatus.trans (if_pos rfl)) ?_
  rw [State.heap_insertStatus_new]
  rfl

theorem Answering.completed (answering : Answering sched task result handler)
    (pc : handler.pc = .completing task.name result) (now : Int)
    : Answering (sched.complete task.name (some { result, cachedResult := true }) now) task
        result { handler with pc := .fetching task.name } := by
  cases answering with
  | completing _ silent tracked clean =>
      have rewrite := State.finish_rewrite sched task.name
        (fun op => { op with result := some { result, cachedResult := true } }) now
      have still := (congrArg (·.lookup task.name) rewrite.operations).trans tracked
      refine .fetching rfl silent still ?_
      rw [State.complete, rewrite.here tracked]
      exact delivers_completed rfl clean rfl
  | enqueueing other | fetching other | replying other | returned other =>
      exact nomatch pc.symm.trans other

theorem busy_of_moved {handler' : Handler} {move : Move}
    (moved : handler.Moved sched move sched' handler')
    : handler'.pc ≠ .idle := by
  cases moved with
  | subscribe pc =>
      unfold afterSubscribe
      split <;> exact nofun
  | _ => exact nofun

namespace System

variable {W H : Type} {s s' : System W H} {label : Label W H}

/-- Names that handlers are about to complete belong to sent tasks, the mutex is held by a
handler inside `Enqueue`, and idle handlers have sent nothing.
-/
structure Orderly (handlers : H → Handler) (locked : Option H) (created : List Task)
    : Prop where
  announced : ∀ h name, (handlers h).pc.completes = some name →
    ∃ task ∈ created, task.name = name
  holder : ∀ h, locked = some h → ∃ task request, (handlers h).pc = .enqueueing task request
  silent : ∀ h, (handlers h).pc = .idle → (handlers h).sent = []

structure Answers (s : System W H) (h : H) (task : Task) (result : ActionResult) : Prop where
  sent : task ∈ s.created
  handler : Answering s.sched task result (s.handlers h)
  alone : ∀ other, other ≠ h →
    (s.handlers other).pc.completes ≠ some task.name
      ∧ (s.handlers other).pc.enqueues ≠ some task

/-- Between the handler's `Enqueue` and its `Complete`, nobody fails, cancels, deletes or
expires its operation; between its `Complete` and its `GetOperation`, no worker starts or
finishes it and nobody deletes or expires it.
-/
def Undisturbed (h : H) (s : System W H) (label : Label W H) : Prop :=
  match (s.handlers h).pc, label with
  | .completing name _, .finish w (.error _) _ => (s.workers w).runs ≠ some name
  | .completing name _, .cancelOperation other _ => other ≠ name
  | .completing name _, .deleteOperation other => other ≠ name
  | .completing name _, .cleanupExpired now => s.sched.expired now name = false
  | .fetching name, .updateState w _ => (s.workers w).starts ≠ some name
  | .fetching name, .finish w _ _ => (s.workers w).runs ≠ some name
  | .fetching name, .deleteOperation other => other ≠ name
  | .fetching name, .cleanupExpired now => s.sched.expired now name = false
  | _, _ => True

def SendsSucceed (h : H) (_ : System W H) : Label W H → Prop
  | .handler other (.send (some _)) => other ≠ h
  | _ => True

def Favours (h : H) (s : System W H) (label : Label W H) : Prop :=
  SendsSucceed h s label ∧ Undisturbed h s label

/-- The queue takes one more task, or has no buffer and a worker waits for it. -/
def HasRoom (s : System W H) (waiting : Option W) : Prop :=
  s.sched.taskQueue.length < s.sched.queueSize
    ∨ (s.sched.queueSize = 0 ∧ ∃ w, waiting = some w ∧ s.workers w = .idle)

variable {h : H} {task : Task} {result : ActionResult}

theorem Answers.record (answers : s.Answers h task result) (handlers : s'.handlers = s.handlers)
    (created : s'.created = s.created)
    (record : Answering s'.sched task result (s.handlers h))
    : s'.Answers h task result where
  sent := created ▸ answers.sent
  handler := handlers ▸ record
  alone := handlers ▸ answers.alone

variable {uuid : UUID} {sched' : State} {handler' : Handler}

theorem Owned.fresh_name (owned : s.Owned) (fresh : uuid ∉ s.issued) (request : Request) (now : Int)
    (sent : task ∈ s.created)
    : request.task s.sched uuid now ≠ task := by
  rintro rfl
  exact owned.fresh_task fresh request now _ sent rfl

theorem Answers.moved (answers : s.Answers h task result) {move : Move}
    (moved : (s.handlers h).Moved s.sched move sched' handler')
    (before : (s.handlers h).pc.enqueues = none ∧ (s.handlers h).pc.completes = none)
    (sends : ∀ err, move ≠ .send (some err))
    : Answering sched' task result handler' := by
  cases answers.handler with
  | enqueueing pc =>
      rw [pc] at before
      cases before.1
  | completing pc =>
      rw [pc] at before
      cases before.2
  | fetching pc silent tracked delivers =>
      cases moved with
      | fetchGone pc' gone =>
          obtain rfl := Pc.fetching.inj (pc'.symm.trans pc)
          simp only [State.getOperation, tracked] at gone
          cases gone
      | fetch pc' found =>
          obtain rfl := Pc.fetching.inj (pc'.symm.trans pc)
          simp only [State.getOperation, tracked, Except.ok.injEq] at found
          subst found
          exact .replying rfl silent delivers
      | complete pc' | skip pc' | snapshot pc' | reply pc' | replyFailed pc' | greet pc'
      | greetFailed pc' | report pc' | reportFailed pc' | subscribe pc' | receive pc'
      | closed pc' | stop pc' | resume pc' | unsubscribe pc' | waitGone pc' | waitDone pc'
      | wait pc' => exact nomatch pc'.symm.trans pc
  | replying pc silent delivers =>
      cases moved with
      | reply pc' =>
          obtain rfl := Pc.replying.inj (pc'.symm.trans pc)
          exact .returned rfl (by rw [silent]; rfl) delivers
      | replyFailed pc' => exact absurd rfl (sends _)
      | complete pc' | fetchGone pc' | fetch pc' | skip pc' | snapshot pc' | greet pc'
      | greetFailed pc' | report pc' | reportFailed pc' | subscribe pc' | receive pc'
      | closed pc' | stop pc' | resume pc' | unsubscribe pc' | waitGone pc' | waitDone pc'
      | wait pc' => exact nomatch pc'.symm.trans pc
  | returned pc =>
      cases moved with
      | complete pc' | fetchGone pc' | fetch pc' | skip pc' | snapshot pc' | reply pc'
      | replyFailed pc' | greet pc' | greetFailed pc' | report pc' | reportFailed pc'
      | subscribe pc' | receive pc' | closed pc' | stop pc' | resume pc' | unsubscribe pc'
      | waitGone pc' | waitDone pc' | wait pc' => exact nomatch pc'.symm.trans pc

/-- A rewrite of the operation's own record, by someone else, keeps the answer: before the
`Complete` it records no error, and before the `GetOperation` it changes nothing.
-/
theorem Answers.rewritten (answers : s.Answers h task result) (owned : s.Owned) {name : String}
    {change : OperationStatus → OperationStatus} (rewrite : s.sched.Rewrite sched' name change)
    (completing : name = task.name → (s.handlers h).pc = .completing task.name result →
      ∀ op, op.error = none → (change op).error = none)
    (fetching : name = task.name → (s.handlers h).pc = .fetching task.name →
      ∀ op, op.state = .completed → change op = op)
    : Answering sched' task result (s.handlers h) := by
  by_cases same : name = task.name
  · subst same
    refine answers.handler.carry (fun ref pc tracked => ?_) (fun ref pc tracked => ?_)
    all_goals
      rw [rewrite.operations, rewrite.here tracked]
      refine ⟨tracked, ?_⟩
    · exact completing rfl pc _
    · intro delivers
      refine fetching rfl pc _ ?_
      simpa [State.toProto] using delivers.1
  · exact answers.handler.apart owned.wellFormed rewrite (Ne.symm same)

theorem Answers.dropped (answers : s.Answers h task result) (heap : sched'.heap = s.sched.heap)
    (kept : (s.handlers h).pc = .completing task.name result
        ∨ (s.handlers h).pc = .fetching task.name →
      sched'.operations.lookup task.name = s.sched.operations.lookup task.name)
    : Answering sched' task result (s.handlers h) := by
  refine answers.handler.carry (fun ref pc tracked => ?_) (fun ref pc tracked => ?_)
  · rw [kept (.inl pc), heap]
    exact ⟨tracked, fun clean => clean⟩
  · rw [kept (.inr pc), heap]
    exact ⟨tracked, fun _ => rfl⟩

variable [DecidableEq H]

theorem Answers.other (answers : s.Answers h task result) {mover : H} (distinct : mover ≠ h)
    (handlers : s'.handlers = Function.update s.handlers mover handler')
    (created : ∀ task ∈ s.created, task ∈ s'.created)
    (record : Answering s'.sched task result (s.handlers h))
    (away : handler'.pc.completes ≠ some task.name ∧ handler'.pc.enqueues ≠ some task)
    : s'.Answers h task result where
  sent := created task answers.sent
  handler := by
    rw [handlers, Function.update_of_ne distinct.symm]
    exact record
  alone other apart := by
    rw [handlers]
    by_cases same : other = mover
    · subst same
      rw [Function.update_self]
      exact away
    · rw [Function.update_of_ne same]
      exact answers.alone other apart

theorem Answers.own (answers : s.Answers h task result)
    (handlers : s'.handlers = Function.update s.handlers h handler')
    (created : s'.created = s.created) (record : Answering s'.sched task result handler')
    : s'.Answers h task result where
  sent := created ▸ answers.sent
  handler := by
    rw [handlers, Function.update_self]
    exact record
  alone other apart := by
    rw [handlers, Function.update_of_ne apart]
    exact answers.alone other apart

theorem Orderly.move {handlers : H → Handler} {locked locked' : Option H}
    {created created' : List Task} (orderly : Orderly handlers locked created) (h : H)
    (added : ∀ task ∈ created, task ∈ created') (busy : handler'.pc ≠ .idle)
    (announced : ∀ name, handler'.pc.completes = some name →
      ∃ task ∈ created', task.name = name)
    (own : locked' = some h → ∃ task request, handler'.pc = .enqueueing task request)
    (others : ∀ other, other ≠ h → locked' = some other → locked = some other)
    : Orderly (Function.update handlers h handler') locked' created' where
  announced other name found := by
    rcases pc_cases Pc.completes found with ⟨_, here⟩ | ⟨_, elsewhere⟩
    · exact announced name here
    · obtain ⟨task, member, named⟩ := orderly.announced other name elsewhere
      exact ⟨task, added task member, named⟩
  holder other held := by
    by_cases same : other = h
    · subst same
      rw [Function.update_self]
      exact own held
    · rw [Function.update_of_ne same]
      exact orderly.holder other (others other same held)
  silent other idle := by
    by_cases same : other = h
    · subst same
      rw [Function.update_self] at idle
      exact absurd idle busy
    · rw [Function.update_of_ne same] at idle ⊢
      exact orderly.silent other idle

variable [DecidableEq W]

theorem Orderly.effect (orderly : Orderly s.handlers s.locked s.created) (owned : s.Owned)
    (effect : s.Effect label s')
    : Orderly s'.handlers s'.locked s'.created := by
  have kept : ∀ task ∈ s.created, task ∈ s.created := fun _ member => member
  cases effect with
  | full unlocked =>
      exact orderly.move _ kept nofun nofun (fun held => nomatch unlocked.symm.trans held)
        (fun _ _ held => held)
  | sent | handed =>
      refine orderly.move _ (fun _ member => List.mem_append_left _ member) nofun nofun
        (fun _ => ⟨_, _, rfl⟩) ?_
      intro other distinct held
      exact absurd (Option.some.inj held).symm distinct
  | @insert h task request pc locked =>
      obtain ⟨-, -, member, -⟩ := owned.inside (h := h) (by rw [pc]; rfl)
      refine orderly.move h kept ?_ ?_ nofun nofun
      · cases request <;> exact nofun
      · intro name completes
        cases request with
        | cached => exact ⟨task, member, Option.some.inj completes⟩
        | execute => cases completes
  | quiet moved unlocked other same before after =>
      refine orderly.move _ kept (busy_of_moved moved) ?_ ?_ (fun _ _ held => held)
      · intro name completes
        exact nomatch after.2.symm.trans completes
      · intro held
        obtain ⟨task, request, pc⟩ := orderly.holder _ held
        rw [pc] at before
        cases before.1
  | completed unlocked =>
      exact orderly.move _ kept nofun nofun (fun held => nomatch unlocked.symm.trans held)
        (fun _ _ held => held)
  | dequeue | updateState | finish | cancelOperation | deleteOperation | cleanupExpired =>
      exact orderly

theorem orderly_inductive
    : (machine : Lib.Machine (System W H) (Label W H)).Inductive Lib.Machine.anyStep
        (fun s => s.Owned ∧ Orderly s.handlers s.locked s.created) := by
  refine owned_inductive.strengthen ?_ ?_
  · rintro s ⟨queueSize, nodeID, rfl⟩
    exact ⟨nofun, nofun, fun _ _ => rfl⟩
  · intro s label s' owned orderly _ taken
    exact orderly.effect owned (step_effect taken)

theorem Answers.effect (answers : s.Answers h task result) (owned : s.Owned)
    (favours : Favours h s label) (effect : s.Effect label s')
    : s'.Answers h task result := by
  obtain ⟨sends, undisturbed⟩ := favours
  have kept : ∀ task ∈ s.created, task ∈ s.created := fun _ member => member
  cases effect with
  | @full mover request uuid now waiting unlocked idle fresh =>
      have distinct : mover ≠ h := fun same => answers.handler.busy (same ▸ idle)
      exact answers.other distinct rfl kept answers.handler ⟨(fun h => by cases h), fun h => by cases h⟩
  | @sent mover request uuid now waiting unlocked idle fresh room =>
      have distinct : mover ≠ h := fun same => answers.handler.busy (same ▸ idle)
      refine answers.other distinct rfl (fun _ member => List.mem_append_left _ member)
        (answers.handler.same rfl rfl) ⟨(fun h => by cases h), fun same => ?_⟩
      exact owned.fresh_name fresh request now answers.sent (Option.some.inj same)
  | @handed mover request uuid now w unlocked idle fresh unbuffered waits =>
      have distinct : mover ≠ h := fun same => answers.handler.busy (same ▸ idle)
      refine answers.other distinct rfl (fun _ member => List.mem_append_left _ member)
        answers.handler ⟨(fun h => by cases h), fun same => ?_⟩
      exact owned.fresh_name fresh request now answers.sent (Option.some.inj same)
  | @insert mover other request pc locked =>
      by_cases same : mover = h
      · subst same
        cases answers.handler with
        | enqueueing pc' silent =>
            obtain ⟨rfl, rfl⟩ := Pc.enqueueing.inj (pc.symm.trans pc')
            exact answers.own rfl rfl (.tracked _ rfl silent)
        | completing pc' | fetching pc' | replying pc' | returned pc' =>
            cases pc.symm.trans pc'
      · obtain ⟨-, -, member, -⟩ := owned.inside (h := mover) (by rw [pc]; rfl)
        have apart : task.name ≠ other.name := by
          intro named
          obtain rfl := owned.task_unique answers.sent member named
          exact (answers.alone mover same).2 (by rw [pc]; rfl)
        refine answers.other same rfl kept (answers.handler.insert owned.wellFormed apart) ?_
        cases request with
        | cached => exact ⟨fun named => apart (Option.some.inj named).symm, fun h => by cases h⟩
        | execute => exact ⟨(fun h => by cases h), fun h => by cases h⟩
  | @quiet mover move sched' handler' moved unlocked other records before after =>
      by_cases same : mover = h
      · subst same
        refine answers.own rfl rfl (answers.moved moved before ?_)
        rintro err rfl
        exact sends rfl
      · refine answers.other same rfl kept
          (answers.handler.same records.operations records.heap) ⟨?_, ?_⟩
        · rw [after.2]
          intro h; cases h
        · rw [after.1]
          intro h; cases h
  | @completed mover now name cached unlocked pc =>
      by_cases same : mover = h
      · subst same
        cases answers.handler with
        | completing pc' silent tracked clean =>
            obtain ⟨rfl, rfl⟩ := Pc.completing.inj (pc.symm.trans pc')
            exact answers.own rfl rfl (answers.handler.completed pc' now)
        | enqueueing pc' | fetching pc' | replying pc' | returned pc' =>
            cases pc.symm.trans pc'
      · have apart : task.name ≠ name := by
          rintro rfl
          exact (answers.alone mover same).1 (by rw [pc]; rfl)
        exact answers.other same rfl kept
          (answers.handler.apart owned.wellFormed (State.finish_rewrite ..) apart) ⟨(fun h => by cases h), fun h => by cases h⟩
  | dequeue => exact answers.record rfl rfl (answers.handler.same rfl rfl)
  | @updateState w now started holds unlocked =>
      refine answers.record rfl rfl
        (answers.rewritten owned (State.updateState_rewrite ..) (fun _ _ _ clean => clean) ?_)
      intro named pc
      simp only [Undisturbed, pc, holds, Worker.starts, named] at undisturbed
      exact absurd rfl undisturbed
  | @finish w outcome now ran runs unlocked =>
      refine answers.record rfl rfl ?_
      cases outcome with
      | error err =>
          refine answers.rewritten owned (State.finish_rewrite ..) ?_ ?_
          all_goals
            intro named pc
            simp only [Undisturbed, pc, runs, Worker.runs, named] at undisturbed
            exact absurd rfl undisturbed
      | ok other =>
          refine answers.rewritten owned (State.finish_rewrite ..) (fun _ _ _ clean => clean) ?_
          intro named pc
          simp only [Undisturbed, pc, runs, Worker.runs, named] at undisturbed
          exact absurd rfl undisturbed
  | cancelOperation unlocked =>
      refine answers.record rfl rfl
        (answers.rewritten owned (State.cancelOperation_rewrite ..) ?_ ?_)
      · intro named pc
        simp only [Undisturbed, pc, named] at undisturbed
        exact absurd rfl undisturbed
      · intro _ _ op done
        rw [State.cancelled, if_neg (by rw [done]; simp)]
  | @deleteOperation name unlocked =>
      refine answers.record rfl rfl
        (answers.dropped (State.deleteOperation_drops s.sched name).heap ?_)
      intro pc
      rw [State.lookup_deleteOperation, if_neg]
      rintro rfl
      rcases pc with pc | pc
      all_goals
        simp only [Undisturbed, pc] at undisturbed
        exact undisturbed rfl
  | @cleanupExpired now unlocked =>
      refine answers.record rfl rfl
        (answers.dropped (State.cleanupExpired_drops s.sched now).heap ?_)
      intro pc
      rw [State.lookup_cleanupExpired, if_neg]
      rcases pc with pc | pc
      all_goals
        simp only [Undisturbed, pc] at undisturbed
        rw [undisturbed]
        intro h; cases h

theorem enqueue_admitted {request : Request} {now : Int} {waiting : Option W}
    (room : s.HasRoom waiting) (called : s.step (.enqueue h request uuid now waiting) = some s')
    : (s'.handlers h).pc = .enqueueing (request.task s.sched uuid now) request := by
  have offered : ∃ sent, s.sched.offerTask? (request.task s.sched uuid now)
      (waiting.any (fun w => s.workers w = .idle)) = some sent := by
    unfold State.offerTask?
    rcases room with buffered | ⟨unbuffered, w, rfl, waits⟩
    · exact ⟨_, if_pos buffered⟩
    · rw [if_neg (by omega), if_pos ⟨unbuffered, by simp [waits]⟩]
      exact ⟨_, rfl⟩
  obtain ⟨sent, offered⟩ := offered
  simp only [step, offered] at called
  split at called
  · obtain rfl := Option.some.inj called
    unfold handOver
    split
    · split <;> simp
    · simp
  · cases called

theorem exists_answers (owned : s.Owned) (orderly : Orderly s.handlers s.locked s.created)
    {actionDigest : Digest} {now : Int} {waiting : Option W} (room : s.HasRoom waiting)
    (called : s.step (.enqueue h (.cached actionDigest result) uuid now waiting) = some s')
    : ∃ task, s'.Answers h task result := by
  have admitted := enqueue_admitted room called
  have alone : s.locked = none → uuid ∉ s.issued → ∀ other,
      (s.handlers other).pc.completes
          ≠ some ((Request.cached actionDigest result).task s.sched uuid now).name
        ∧ (s.handlers other).pc.enqueues
          ≠ some ((Request.cached actionDigest result).task s.sched uuid now) := by
    intro unlocked fresh other
    refine ⟨fun completes => ?_, ?_⟩
    · obtain ⟨task, member, named⟩ := orderly.announced other _ completes
      exact owned.fresh_task fresh _ now task member (Task.operationID_of_name named)
    · rw [owned.none_inside unlocked other]
      exact nofun
  cases step_effect called with
  | full =>
      simp only [Function.update_self] at admitted
      cases admitted
  | sent unlocked idle fresh | handed unlocked idle fresh =>
      refine ⟨_, List.mem_append_right _ (List.mem_singleton_self _),
        .enqueueing admitted ?_, fun other distinct => ?_⟩
      · simp only [Function.update_self]
        exact orderly.silent h idle
      · simp only [Function.update_of_ne distinct]
        exact alone unlocked fresh other

def Pc.left : Pc → Nat
  | .enqueueing _ _ => 4
  | .completing _ _ => 3
  | .fetching _ => 2
  | .replying _ => 1
  | _ => 0

def answerRank (h : H) (s : System W H) : Nat :=
  2 * Pc.left (s.handlers h).pc + if s.locked.isSome then 1 else 0

theorem step_insert {request : Request} (pc : (s.handlers h).pc = .enqueueing task request)
    (locked : s.locked = some h)
    : s.step (.insert h) = some { s with
        sched := s.sched.insertStatus (State.newStatus task)
        locked := none
        handlers :=
          Function.update s.handlers h
            { s.handlers h with pc := afterEnqueue task request } } := by
  simp only [step, pc, locked, if_true]

theorem step_handler {move : Move} (unlocked : move.locks = true → s.locked = none)
    (moved : (s.handlers h).move s.sched move = some (sched', handler'))
    : s.step (.handler h move) = some { s with
        sched := sched', handlers := Function.update s.handlers h handler' } := by
  have free : ¬ (move.locks = true ∧ s.locked.isSome = true) := by
    rintro ⟨locks, held⟩
    rw [unlocked locks] at held
    cases held
  simp only [step, moved, if_neg free, Option.map_some]

/-- An answer that is not given yet has a step that favours it and brings it closer: one of
its own, or the return of the mutex that it waits for.
-/
theorem Answers.exists_step (answers : s.Answers h task result) (owned : s.Owned)
    (orderly : Orderly s.handlers s.locked s.created)
    (running : (s.handlers h).pc ≠ .returned none)
    : ∃ label s', Favours h s label ∧ s.step label = some s'
        ∧ answerRank h s' < answerRank h s := by
  cases inside : s.locked with
  | some holder =>
      -- whoever is inside `Enqueue` goes on, the answering handler or another one
      obtain ⟨other, request, pc⟩ := orderly.holder holder inside
      refine ⟨.insert holder, _, ⟨trivial, ?_⟩, step_insert pc inside, ?_⟩
      · unfold Undisturbed
        split <;> trivial
      · by_cases same : holder = h
        · subst same
          cases request <;> simp [answerRank, pc, inside, Pc.left, afterEnqueue]
        · simp [answerRank, inside, Function.update_of_ne (Ne.symm same)]
  | none =>
      cases answers.handler with
      | enqueueing pc =>
          obtain ⟨locked, -⟩ := owned.inside (h := h) (by rw [pc]; rfl)
          cases inside.symm.trans locked
      | completing pc =>
          have moved : (s.handlers h).move s.sched (.complete 0)
              = some (s.sched.complete task.name (some { result, cachedResult := true }) 0,
                { s.handlers h with pc := .fetching task.name }) := by
            simp only [Handler.move, pc]
          refine ⟨.handler h (.complete 0), _, ⟨trivial, ?_⟩,
            step_handler (fun _ => inside) moved, ?_⟩
          · simp only [Undisturbed, pc]
          · simp [answerRank, pc, inside, Pc.left]
      | @fetching ref pc silent tracked delivers =>
          have moved : (s.handlers h).move s.sched .getOperation
              = some (s.sched,
                { s.handlers h with pc := .replying (State.toProto (s.sched.heap ref)) }) := by
            simp only [Handler.move, pc, State.getOperation, tracked]
          refine ⟨.handler h .getOperation, _, ⟨trivial, ?_⟩,
            step_handler (fun _ => inside) moved, ?_⟩
          · simp only [Undisturbed, pc]
          · simp [answerRank, pc, inside, Pc.left]
      | @replying op pc =>
          have moved : (s.handlers h).move s.sched (.send none)
              = some (s.sched,
                { s.handlers h with
                  pc := .returned none, sent := (s.handlers h).sent ++ [op] }) := by
            simp only [Handler.move, pc]
          refine ⟨.handler h (.send none), _, ⟨trivial, ?_⟩,
            step_handler (fun _ => inside) moved, ?_⟩
          · simp only [Undisturbed, pc]
          · simp [answerRank, pc, inside, Pc.left]
      | returned pc => exact absurd pc running

/-- In every run that favours a cached `Execute` whose `Enqueue` found room: it sends nothing
but one message, that message is done and carries the cached result, what it returns is nil,
and from every state it can go on until it has returned.
-/
theorem cached_result_delivered {s s₁ s' : System W H} {h : H} {actionDigest : Digest}
    {result : ActionResult} {uuid : UUID} {now : Int} {waiting : Option W}
    {labels : List (Label W H)} (reach : machine.Reachable Lib.Machine.anyStep s)
    (room : s.HasRoom waiting)
    (called : s.step (.enqueue h (.cached actionDigest result) uuid now waiting) = some s₁)
    (run : machine.Run (Favours h) s₁ labels s')
    : (∀ outcome, (s'.handlers h).pc = .returned outcome →
        outcome = none ∧ ∃ op, (s'.handlers h).sent = [op] ∧ Delivers result op)
      ∧ ((∀ outcome, (s'.handlers h).pc ≠ .returned outcome) → (s'.handlers h).sent = [])
      ∧ ∃ more s'' op, machine.Run (Favours h) s' more s''
          ∧ (s''.handlers h).pc = .returned none ∧ (s''.handlers h).sent = [op]
          ∧ Delivers result op := by
  obtain ⟨owned, orderly⟩ := orderly_inductive.reachable reach
  obtain ⟨task, answers⟩ := exists_answers owned orderly room called
  let Holds : System W H → Prop := fun s =>
    s.Owned ∧ Orderly s.handlers s.locked s.created ∧ s.Answers h task result
  have keeps : ∀ s label s', Holds s → Favours h s label → s.step label = some s' → Holds s' := by
    rintro s label s' ⟨owned, orderly, answers⟩ favours taken
    have effect := step_effect taken
    exact ⟨owned.effect effect, orderly.effect owned effect,
      answers.effect owned favours effect⟩
  have first := step_effect called
  have holds : Holds s' :=
    run.preserves keeps ⟨owned.effect first, orderly.effect owned first, answers⟩
  have ended : ∀ s, Holds s → ∀ outcome, (s.handlers h).pc = .returned outcome →
      outcome = none ∧ ∃ op, (s.handlers h).sent = [op] ∧ Delivers result op := by
    rintro s ⟨-, -, answers⟩ outcome pc
    cases answers.handler with
    | returned pc' sent delivers =>
        exact ⟨Pc.returned.inj (pc.symm.trans pc'), _, sent, delivers⟩
    | enqueueing pc' | completing pc' | fetching pc' | replying pc' =>
        exact nomatch pc.symm.trans pc'
  refine ⟨ended s' holds, ?_, ?_⟩
  · intro running
    cases holds.2.2.handler with
    | enqueueing _ silent | completing _ silent | fetching _ silent | replying _ silent =>
        exact silent
    | returned pc => exact absurd pc (running none)
  · have finishes : ∃ more s'', machine.Run (Favours h) s' more s''
        ∧ (s''.handlers h).pc = .returned none :=
      Lib.Machine.exists_run_to (answerRank h) keeps
        (fun s holds running => holds.2.2.exists_step holds.1 holds.2.1 running) holds
    obtain ⟨more, s'', run, pc⟩ := finishes
    obtain ⟨-, op, sent, delivers⟩ := ended s'' (run.preserves keeps holds) none pc
    exact ⟨more, s'', op, run, pc, sent, delivers⟩

instance (h : H) (s : System W H) (label : Label W H) : Decidable (SendsSucceed h s label) := by
  unfold SendsSucceed
  split <;> infer_instance

instance (h : H) (s : System W H) (label : Label W H) : Decidable (Undisturbed h s label) := by
  unfold Undisturbed
  split <;> infer_instance

instance (h : H) (s : System W H) (label : Label W H) : Decidable (Favours h s label) :=
  inferInstanceAs (Decidable (_ ∧ _))

def cachedResult : ActionResult where
  exitCode := 0
  stdoutDigest := none
  stderrDigest := none
  outputFiles := []
  outputDirectories := []

def executeCached (uuid : UUID) : Label (Fin 2) (Fin 2) :=
  .enqueue 0 (.cached sampleDigest cachedResult) uuid 0 none

/-- With a worker that has dequeued the task and started it before the handler's `Complete`,
and that finishes it after the handler's `GetOperation`, the cached result is delivered.
-/
theorem cached_result_delivered_beside_worker
    : ∃ s s₁ s' : System (Fin 2) (Fin 2), ∃ op,
        machine.Reachable Lib.Machine.anyStep s
        ∧ s.HasRoom none
        ∧ s.step (executeCached sampleUUID) = some s₁
        ∧ machine.Run (Favours 0) s₁
            [.dequeue 1, .insert 0, .updateState 1 1, .handler 0 (.complete 2),
              .handler 0 .getOperation, .finish 1 (.error (.plain "exit")) 3,
              .handler 0 (.send none)] s'
        ∧ (s'.handlers 0).pc = .returned none
        ∧ (s'.handlers 0).sent = [op] ∧ Delivers cachedResult op := by
  have reach : machine.Reachable Lib.Machine.anyStep testNode :=
    ⟨testNode, [], ⟨100, "test-node", rfl⟩, .nil _⟩
  have room : testNode.HasRoom none := .inl (by decide)
  obtain ⟨s₁, called, later⟩ : ∃ s₁, testNode.step (executeCached sampleUUID) = some s₁
      ∧ (machine.execIf (Favours 0) s₁
        [.dequeue 1, .insert 0, .updateState 1 1, .handler 0 (.complete 2),
          .handler 0 .getOperation, .finish 1 (.error (.plain "exit")) 3,
          .handler 0 (.send none)]).any
            (fun s' => (s'.handlers 0).pc = .returned none) = true :=
    ⟨_, rfl, by decide⟩
  obtain ⟨s', run, returned⟩ := Lib.Machine.exists_run_of_execIf machine (Favours 0) s₁ _ _ later
  have returned := of_decide_eq_true returned
  obtain ⟨-, op, sent, delivers⟩ := (cached_result_delivered reach room called run).1 none returned
  exact ⟨testNode, s₁, s', op, reach, room, called, run, returned, sent, delivers⟩

/-- Two ways to lose a cached result: a worker starts the task between the handler's `Complete`
and its `GetOperation`, and the only message is not done; or the queue is full, and `Execute`
fails without a message.
-/
theorem cached_result_lost
    : (∃ s : System (Fin 2) (Fin 2),
        machine.Run (SendsSucceed 0) testNode
          [executeCached sampleUUID, .insert 0, .dequeue 1, .handler 0 (.complete 1),
            .updateState 1 2, .handler 0 .getOperation, .handler 0 (.send none)] s
        ∧ (s.handlers 0).pc = .returned none
        ∧ (s.handlers 0).sent.map (fun op => op.done) = [false])
      ∧ ∃ s : System (Fin 2) (Fin 2),
        machine.Run (SendsSucceed 0) (new 1 "test-node")
          [.enqueue 1 (.execute sampleDigest false "") sampleUUID 0 none, .insert 1,
            executeCached otherUUID] s
        ∧ (s.handlers 0).pc = .returned (some State.queueFull)
        ∧ (s.handlers 0).sent = [] := by
  refine ⟨?_, ?_⟩
  · obtain ⟨s, run, tested⟩ := Lib.Machine.exists_run_of_execIf machine (SendsSucceed 0) testNode
      [executeCached sampleUUID, .insert 0, .dequeue 1, .handler 0 (.complete 1),
        .updateState 1 2, .handler 0 .getOperation, .handler 0 (.send none)]
      (fun s => (s.handlers 0).pc = .returned none
        ∧ (s.handlers 0).sent.map (fun op => op.done) = [false]) (by decide)
    exact ⟨s, run, of_decide_eq_true tested⟩
  · obtain ⟨s, run, tested⟩ := Lib.Machine.exists_run_of_execIf machine (SendsSucceed 0)
      (new 1 "test-node")
      [.enqueue 1 (.execute sampleDigest false "") sampleUUID 0 none, .insert 1,
        executeCached otherUUID]
      (fun s => (s.handlers 0).pc = .returned (some State.queueFull)
        ∧ (s.handlers 0).sent = []) (by decide)
    exact ⟨s, run, of_decide_eq_true tested⟩

end System

end GoREgo.Execution
