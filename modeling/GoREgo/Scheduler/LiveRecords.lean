import GoREgo.Scheduler.Subscribers

/-! Dropped notifications are harmless, since a channel carries pointers to live records.
A send that finds ten pointers in the buffer is dropped. Whatever pointer the subscriber then
receives leads to the same record, which holds the latest change. The argument keeps, for
every record, the list of all contents that it has had.
-/

namespace GoREgo.Scheduler

/-- A blocking send; none when the buffer is full, so that the sender has to wait. -/
def Chan.send? (chan : Chan) (ref : OpRef) : Option Chan :=
  if chan.buffer.length < chanCapacity then
    some { chan with buffer := chan.buffer ++ [ref] }
  else
    none

/-- `make(chan *OperationStatus, 10)`. -/
def Chan.new : Chan where
  buffer := []
  closed := false

namespace State

def changed (s : State) : Call → Option OpRef
  | .updateState name _ _ _ | .complete name _ _ | .fail name _ _ => s.operations.lookup name
  | .cancelOperation name _ =>
      (s.operations.lookup name).filter (fun ref => (s.heap ref).state = .queued)
  | _ => none

/-- The call gives the channel of a subscriber of `name` a reason to wake up for the record
`ref`: a change while the channel is registered, or the subscription to a tracked operation.
-/
inductive Wakes (s : State) : Call → String → ChanRef → OpRef → Prop
  | change {call name ch ref} (tracked : s.operations.lookup name = some ref)
    (changes : s.changed call = some ref) (registered : ch ∈ s.subscribers name)
    : Wakes s call name ch ref
  | subscribe {name ref} (tracked : s.operations.lookup name = some ref)
    : Wakes s (.subscribe name) name s.nextChan ref

theorem filled_store {s : State} {name : String} {ref : OpRef} {count : Int}
    {op : OperationStatus} {ch : ChanRef} (registered : ch ∈ s.subscribers name)
    : ((s.store name ref count op).chans ch).buffer ≠ [] :=
  (foldl_offer (s.subscribers name) s.chans ref ch).2.2.2.1 registered

theorem nextChan_unsubscribe (s : State) (name : String) (ch : ChanRef)
    : (s.unsubscribe name ch).nextChan = s.nextChan := by
  unfold unsubscribe
  split
  · rfl
  · rfl

end State

namespace Session

variable {s s' : Session} {call : Call} {ref : OpRef}

theorem step_heap (taken : s.step call = some s')
    (ordinary
      : ∀ uuid actionDigest skipCache nodeIDOverride now receiver,
          call ≠ .enqueue uuid actionDigest skipCache nodeIDOverride now receiver)
    (other : s.sched.changed call ≠ some ref)
    : s'.sched.heap ref = s.sched.heap ref := by
  cases call with
  | enqueue uuid actionDigest skipCache nodeIDOverride now receiver =>
      exact (ordinary _ _ _ _ _ _ rfl).elim
  | dequeue =>
      obtain ⟨rest, rfl⟩ := step_dequeue taken
      rfl
  | updateState name state metadata now =>
      obtain rfl := Option.some.inj taken
      exact (State.updateState_rewrite ..).others other
  | complete name result now =>
      obtain rfl := Option.some.inj taken
      exact (State.finish_rewrite ..).others other
  | fail name error now =>
      obtain rfl := Option.some.inj taken
      exact (State.finish_rewrite ..).others other
  | cancelOperation name now =>
      obtain rfl := Option.some.inj taken
      have rewrite := State.cancelOperation_rewrite s.sched name now
      by_cases tracked : s.sched.operations.lookup name = some ref
      · rw [rewrite.here tracked, State.cancelled]
        refine if_neg (fun queued => other ?_)
        simp [State.changed, tracked, queued]
      · exact rewrite.others tracked
  | deleteOperation name =>
      obtain rfl := Option.some.inj taken
      rw [State.deleteOperation_fst]
  | cleanupExpired now =>
      obtain rfl := Option.some.inj taken
      rfl
  | subscribe name =>
      obtain rfl := Option.some.inj taken
      rfl
  | unsubscribe name ch =>
      obtain rfl := Option.some.inj taken
      unfold State.unsubscribe
      split
      · rfl
      · rfl
  | receive ch =>
      obtain ⟨⟨update, sched⟩, received, rfl⟩ := Option.map_eq_some_iff.mp taken
      obtain ⟨rest, _, rfl⟩ := State.receive?_spec received
      rfl

theorem step_record (taken : s.step call = some s') (below : ref < s.sched.nextOp)
    : ref < s'.sched.nextOp
      ∧ (s'.sched.heap ref).name = (s.sched.heap ref).name
      ∧ (s.sched.changed call ≠ some ref → s'.sched.heap ref = s.sched.heap ref) := by
  by_cases enqueues : ∃ uuid actionDigest skipCache nodeIDOverride now receiver,
      call = .enqueue uuid actionDigest skipCache nodeIDOverride now receiver
  · obtain ⟨uuid, actionDigest, skipCache, nodeIDOverride, now, receiver, rfl⟩ := enqueues
    obtain ⟨_, same⟩ := Option.ite_none_left_eq_some.mp taken
    obtain rfl := Option.some.inj same
    cases offered : s.sched.offerTask?
        (s.sched.newTask uuid actionDigest skipCache nodeIDOverride now) receiver with
    | none =>
        rw [State.enqueue_full offered]
        exact ⟨below, rfl, fun _ => rfl⟩
    | some sent =>
        rw [State.enqueue_sent offered]
        obtain ⟨_, heap, nextOp, _⟩ := State.offerTask?_records offered
        have kept (op : OperationStatus) : (sent.insertStatus op).heap ref = s.sched.heap ref := by
          rw [State.heap_insertStatus_old (nextOp ▸ below), heap]
        refine ⟨?_, congrArg _ (kept _), fun _ => kept _⟩
        exact Nat.lt_succ_of_lt (nextOp ▸ below)
  · have ordinary : ∀ uuid actionDigest skipCache nodeIDOverride now receiver,
        call ≠ .enqueue uuid actionDigest skipCache nodeIDOverride now receiver :=
      fun _ _ _ _ _ _ same => enqueues ⟨_, _, _, _, _, _, same⟩
    have quiet := step_quiet taken ordinary
    exact ⟨quiet.nextOp ▸ below, quiet.names ref, step_heap taken ordinary⟩

def Carries (s : Session) : Prop :=
  ∀ {name ch ref}, ch ∈ s.sched.subscribers name → ref ∈ (s.sched.chans ch).buffer
    → ref < s.sched.nextOp ∧ (s.sched.heap ref).name = name

theorem mem_buffer_notified {sched sched' : State} {name : String} {ch : ChanRef}
    (notifies : sched.Notifies sched' name) (member : ref ∈ (sched'.chans ch).buffer)
    : ref ∈ (sched.chans ch).buffer
      ∨ (ch ∈ sched.subscribers name ∧ sched.operations.lookup name = some ref) := by
  by_cases registered : ch ∈ sched.subscribers name
  · exact (notifies.grows member).imp_right (fun tracked => ⟨registered, tracked⟩)
  · rw [notifies.others registered] at member
    exact Or.inl member

theorem buffer_unsubscribe (sched : State) (name : String) (ch other : ChanRef)
    : ((sched.unsubscribe name ch).chans other).buffer = (sched.chans other).buffer := by
  unfold State.unsubscribe
  split
  · by_cases same : other = ch
    · subst same
      simp
    · simp [Function.update_of_ne same]
  · rfl

theorem chans_subscribe_new (sched : State) (name : String)
    : (sched.subscribe name).1.chans sched.nextChan
      = { buffer := (sched.operations.lookup name).toList, closed := false } := by
  simp only [State.subscribe, Function.update_self]
  cases sched.operations.lookup name with
  | none => rfl
  | some ref => rfl

theorem Carries.step (carries : s.Carries) (valid : s.Valid) (safe : s.sched.Safe)
    (taken : s.step call = some s')
    : s'.Carries := by
  intro name ch ref registered member
  have later (known : ref < s.sched.nextOp ∧ (s.sched.heap ref).name = name)
      : ref < s'.sched.nextOp ∧ (s'.sched.heap ref).name = name := by
    obtain ⟨allocated, named, _⟩ := step_record taken known.1
    exact ⟨allocated, named.trans known.2⟩
  have tracked (found : s.sched.operations.lookup name = some ref)
      : ref < s.sched.nextOp ∧ (s.sched.heap ref).name = name :=
    ⟨valid.wellFormed.allocated found, valid.wellFormed.named found⟩
  cases step_effect taken with
  | kept _ same =>
      rw [same.subscribers] at registered
      rw [same.chans] at member
      exact later (carries registered member)
  | notified _ other notifies =>
      rw [notifies.subscribers] at registered
      rcases mem_buffer_notified notifies member with old | ⟨listed, found⟩
      · exact later (carries registered old)
      · obtain rfl := safe.apart registered listed
        exact later (tracked found)
  | cleaned => exact later (carries (State.mem_subscribers_cleanupExpired registered) member)
  | @subscribed other =>
      rw [State.subscribers_subscribe] at registered
      by_cases new : ch = s.sched.nextChan
      · subst new
        rw [chans_subscribe_new] at member
        have found : s.sched.operations.lookup other = some ref := by simpa using member
        split at registered
        next same => exact later (tracked (same ▸ found))
        next => exact (Nat.lt_irrefl _ (safe.allocated registered)).elim
      · have old : ch ∈ s.sched.subscribers name := by
          split at registered
          · simpa [new] using registered
          · exact registered
        rw [State.chans_subscribe (safe.allocated old)] at member
        exact later (carries old member)
  | unsubscribed =>
      rw [buffer_unsubscribe] at member
      exact later (carries (State.mem_subscribers_unsubscribe registered) member)
  | @received source update rest buffer =>
      refine later (carries registered ?_)
      by_cases same : ch = source
      · subst same
        rw [buffer]
        exact List.mem_cons_of_mem _ (by simpa using member)
      · simpa [Function.update_of_ne same] using member

theorem carries_inductive
    : machine.Inductive Lib.Machine.anyStep
        (fun s : Session => (s.Valid ∧ s.sched.Safe) ∧ s.Carries) :=
  (valid_inductive.strengthen safe_inductive.start
    (fun s call s' _ safe allowed taken => safe_inductive.keeps s call s' safe allowed taken)
  ).strengthen
    (fun s initial => by
      obtain ⟨queueSize, nodeID, rfl⟩ := initial
      exact fun registered => nomatch registered)
    (fun _ _ _ both carries _ taken => carries.step both.1 both.2 taken)

/-- The channel holds pointers to the record `ref` of the operation `name`, and to nothing
else.
-/
structure Holds (s : Session) (name : String) (ch : ChanRef) (ref : OpRef) : Prop where
  filled : (s.sched.chans ch).buffer ≠ []
  live : ∀ update ∈ (s.sched.chans ch).buffer, update = ref
  allocated : ref < s.sched.nextOp
  named : (s.sched.heap ref).name = name
  channel : ch < s.sched.nextChan
  own : ∀ {other}, ch ∈ s.sched.subscribers other → other = name

variable {name : String} {ch : ChanRef}

theorem Holds.carry (holds : s.Holds name ch ref) (taken : s.step call = some s')
    (buffer : (s'.sched.chans ch).buffer = (s.sched.chans ch).buffer)
    (nextChan : s.sched.nextChan ≤ s'.sched.nextChan)
    (sub : ∀ {other}, ch ∈ s'.sched.subscribers other → ch ∈ s.sched.subscribers other)
    : s'.Holds name ch ref where
  filled := buffer ▸ holds.filled
  live := buffer ▸ holds.live
  allocated := (step_record taken holds.allocated).1
  named := (step_record taken holds.allocated).2.1.trans holds.named
  channel := Nat.lt_of_lt_of_le holds.channel nextChan
  own listed := holds.own (sub listed)

theorem Holds.step (holds : s.Holds name ch ref) (valid : s.Valid)
    (taken : s.step call = some s') (waits : call ≠ .receive ch)
    : s'.Holds name ch ref := by
  cases step_effect taken with
  | kept _ same =>
      exact holds.carry taken (by rw [same.chans]) (Nat.le_of_eq same.nextChan.symm)
        (fun listed => same.subscribers ▸ listed)
  | notified _ other notifies =>
      obtain ⟨allocated, sameName, _⟩ := step_record taken holds.allocated
      refine ⟨notifies.keeps holds.filled, ?_, allocated, sameName.trans holds.named, ?_, ?_⟩
      · intro update member
        rcases mem_buffer_notified notifies member with old | ⟨listed, found⟩
        · exact holds.live update old
        · -- the notified name is the channel's own, and no two records share a name
          obtain rfl := holds.own listed
          exact valid.wellFormed.distinct (valid.wellFormed.allocated found) holds.allocated
            ((valid.wellFormed.named found).trans holds.named.symm)
      · rw [notifies.nextChan]
        exact holds.channel
      · intro other
        rw [notifies.subscribers]
        exact holds.own
  | cleaned =>
      exact holds.carry taken rfl (Nat.le_refl _) State.mem_subscribers_cleanupExpired
  | @subscribed other =>
      refine holds.carry taken (congrArg _ (State.chans_subscribe holds.channel))
        (Nat.le_succ _) (fun {third} listed => ?_)
      rw [State.subscribers_subscribe] at listed
      split at listed
      · rcases List.mem_append.mp listed with old | new
        · exact old
        · exact (Nat.ne_of_lt holds.channel (List.mem_singleton.mp new)).elim
      · exact listed
  | unsubscribed =>
      refine holds.carry taken (buffer_unsubscribe ..) (Nat.le_of_eq ?_)
        State.mem_subscribers_unsubscribe
      exact (State.nextChan_unsubscribe ..).symm
  | @received source update rest buffer =>
      have apart : ch ≠ source := fun same => waits (by rw [same])
      exact holds.carry taken (congrArg _ (Function.update_of_ne apart ..)) (Nat.le_refl _)
        (fun listed => listed)

theorem filled_of_changed (valid : s.Valid) (taken : s.step call = some s')
    (tracked : s.sched.operations.lookup name = some ref)
    (changes : s.sched.changed call = some ref) (registered : ch ∈ s.sched.subscribers name)
    : (s'.sched.chans ch).buffer ≠ [] := by
  have same {other : String} (found : s.sched.operations.lookup other = some ref)
      : ch ∈ s.sched.subscribers other :=
    valid.wellFormed.name_unique tracked found ▸ registered
  cases call with
  | updateState other state metadata now =>
      obtain rfl := Option.some.inj taken
      rw [State.updateState_tracked changes]
      exact State.filled_store (same changes)
  | complete other result now =>
      obtain rfl := Option.some.inj taken
      rw [State.complete, State.finish_tracked changes]
      exact State.filled_store (same changes)
  | fail other error now =>
      obtain rfl := Option.some.inj taken
      rw [State.fail, State.finish_tracked changes]
      exact State.filled_store (same changes)
  | cancelOperation other now =>
      obtain rfl := Option.some.inj taken
      obtain ⟨found, queued⟩ := Option.filter_eq_some_iff.mp changes
      rw [State.cancelOperation_queued found (of_decide_eq_true queued)]
      exact State.filled_store (same found)
  | enqueue | dequeue | deleteOperation | cleanupExpired | subscribe | unsubscribe | receive =>
      cases changes

theorem registers_of_changed {sched : State} (changes : sched.changed call = some ref)
    : call.registers = false := by
  cases call with
  | subscribe | unsubscribe | cleanupExpired => cases changes
  | enqueue | dequeue | updateState | complete | fail | cancelOperation | deleteOperation
  | receive => rfl

theorem holds_of_wakes (valid : s.Valid) (safe : s.sched.Safe) (carries : s.Carries)
    (taken : s.step call = some s') (wakes : s.sched.Wakes call name ch ref)
    : s'.Holds name ch ref := by
  have after : s'.Carries := carries.step valid safe taken
  -- what the channel carries are records of the name, and the name has one record
  have assemble (tracked : s.sched.operations.lookup name = some ref)
      (filled : (s'.sched.chans ch).buffer ≠ []) (listed : ch ∈ s'.sched.subscribers name)
      (safe' : s'.sched.Safe)
      : s'.Holds name ch ref := by
    obtain ⟨allocated, sameName, _⟩ := step_record taken (valid.wellFormed.allocated tracked)
    have named := sameName.trans (valid.wellFormed.named tracked)
    have valid' := valid_inductive.keeps s call s' valid trivial taken
    refine ⟨filled, fun update member => ?_, allocated, named, safe'.allocated listed,
      fun other => safe'.apart other listed⟩
    obtain ⟨below, same⟩ := after listed member
    exact valid'.wellFormed.distinct below allocated (same.trans named.symm)
  have safe' := (step_effect taken).safe safe
  cases wakes with
  | change tracked changes registered =>
      refine assemble tracked (filled_of_changed valid taken tracked changes registered) ?_ safe'
      have plain := registers_of_changed changes
      cases step_effect taken with
      | kept _ same => exact same.subscribers ▸ registered
      | notified _ _ notifies => exact notifies.subscribers ▸ registered
      | cleaned | subscribed | unsubscribed => cases plain
      | received => exact registered
  | subscribe tracked =>
      obtain rfl := Option.some.inj taken
      refine assemble tracked ?_ ?_ safe'
      · rw [chans_subscribe_new, tracked]
        exact List.cons_ne_nil _ _
      · rw [State.subscribers_subscribe, if_pos rfl]
        exact List.mem_append_right _ List.mem_cons_self

end Session

/-- A session with the contents that each record has had so far, oldest first. -/
structure Logged where
  session : Session
  contents : OpRef → List OperationStatus

namespace Logged

def writes (sched sched' : State) (call : Call) (ref : OpRef) : Bool :=
  sched.changed call = some ref ∨ (sched.nextOp ≤ ref ∧ ref < sched'.nextOp)

/-- The effect of a call; the record that it writes gets one more content. -/
def step (s : Logged) (call : Call) : Option Logged :=
  (s.session.step call).map (fun next =>
    { session := next
      contents := fun ref =>
        if writes s.session.sched next.sched call ref then
          s.contents ref ++ [next.sched.heap ref]
        else
          s.contents ref })

def machine : Lib.Machine Logged Call where
  initial s := Session.machine.initial s.session ∧ s.contents = fun _ => []
  step := step

/-- The record shows something at least as recent as what it showed in `earlier`: its contents
continue the ones of that time, and the latest is the one that a pointer leads to now.
-/
structure ShowsSince (earlier s : Logged) (ref : OpRef) : Prop where
  continues : earlier.contents ref <+: s.contents ref
  before : (earlier.contents ref).getLast? = some (earlier.session.sched.heap ref)
  now : (s.contents ref).getLast? = some (s.session.sched.heap ref)

def Latest (s : Logged) : Prop :=
  ∀ ref, ref < s.session.sched.nextOp
    → (s.contents ref).getLast? = some (s.session.sched.heap ref)

variable {s s' mid : Logged} {call : Call} {ref : OpRef}

theorem step_session (taken : s.step call = some s')
    : s.session.step call = some s'.session := by
  obtain ⟨next, stepped, rfl⟩ := Option.map_eq_some_iff.mp taken
  exact stepped

theorem step_contents (taken : s.step call = some s') (ref : OpRef)
    : s'.contents ref
      = if writes s.session.sched s'.session.sched call ref then
          s.contents ref ++ [s'.session.sched.heap ref]
        else
          s.contents ref := by
  obtain ⟨next, _, rfl⟩ := Option.map_eq_some_iff.mp taken
  rfl

theorem contents_grow (taken : s.step call = some s') (ref : OpRef)
    : s.contents ref <+: s'.contents ref := by
  rw [step_contents taken]
  split
  · exact List.prefix_append _ _
  · exact List.prefix_rfl

theorem Latest.step (latest : s.Latest) (taken : s.step call = some s') : s'.Latest := by
  intro ref below
  rw [step_contents taken]
  split
  next => exact List.getLast?_concat
  next unwritten =>
    simp only [writes, decide_eq_true_eq, not_or, not_and, not_lt] at unwritten
    have old : ref < s.session.sched.nextOp := by
      by_contra new
      exact Nat.lt_irrefl _ (Nat.lt_of_lt_of_le below (unwritten.2 (Nat.le_of_not_lt new)))
    rw [(Session.step_record (step_session taken) old).2.2 unwritten.1]
    exact latest ref old

theorem latest_inductive
    : machine.Inductive Lib.Machine.anyStep
        (fun s => ((s.session.Valid ∧ s.session.sched.Safe) ∧ s.session.Carries) ∧ s.Latest) where
  start s initial := by
    refine ⟨Session.carries_inductive.start _ initial.1, ?_⟩
    obtain ⟨⟨queueSize, nodeID, start⟩, _⟩ := initial
    intro ref below
    rw [start] at below
    exact (Nat.not_lt_zero ref below).elim
  keeps s call s' holds _ taken :=
    ⟨Session.carries_inductive.keeps _ call _ holds.1 trivial (step_session taken),
      holds.2.step taken⟩

theorem run_contents {labels : List Call} (run : machine.Run Lib.Machine.anyStep s labels s')
    (ref : OpRef)
    : s.contents ref <+: s'.contents ref := by
  induction run with
  | nil => exact List.prefix_rfl
  | cons _ taken _ ih => exact (contents_grow taken ref).trans ih

theorem ShowsSince.of_run {labels : List Call}
    (reach : machine.Reachable Lib.Machine.anyStep s)
    (run : machine.Run Lib.Machine.anyStep s labels s') (below : ref < s.session.sched.nextOp)
    : ShowsSince s s' ref := by
  have allocated : ref < s'.session.sched.nextOp :=
    run.preserves (fun _ _ _ below _ taken => (Session.step_record (step_session taken) below).1)
      below
  exact ⟨run_contents run ref, (latest_inductive.reachable reach).2 ref below,
    (latest_inductive.reachable (reach.after run)).2 ref allocated⟩

theorem run_holds {name : String} {ch : ChanRef} {labels : List Call}
    (run : machine.Run (fun _ call => call ≠ .receive ch) s labels s')
    (valid : s.session.Valid) (holds : s.session.Holds name ch ref)
    : s'.session.Holds name ch ref := by
  induction run with
  | nil => exact holds
  | cons waits taken _ ih =>
      have stepped := step_session taken
      exact ih (Session.valid_inductive.keeps _ _ _ valid trivial stepped)
        (holds.step valid stepped waits)

/-- Dropping notifications never loses a wake-up. From a change of the operation that took
effect while the channel was registered, or from the subscription to a tracked operation, and
until the subscriber receives, the channel is not empty; the pointer that the subscriber
receives next shows, then and ever after, something at least as recent as that moment. The
send inside `Subscribe` never blocks.
-/
theorem wakeup_never_lost {name : String} {ch : ChanRef} {labels : List Call}
    (reach : machine.Reachable Lib.Machine.anyStep s)
    (wakes : s.session.sched.Wakes call name ch ref) (taken : machine.step s call = some mid)
    (run : machine.Run (fun _ call => call ≠ .receive ch) mid labels s')
    : (s'.session.sched.chans ch).buffer ≠ []
      ∧ (∀ update rest, s'.session.sched.receive? ch = some (update, rest)
          → update = ref
            ∧ ∀ later after, machine.Run Lib.Machine.anyStep s' (.receive ch :: later) after
                → ShowsSince mid after update)
      ∧ ∀ (sched : State) (name : String) (ref : OpRef), sched.operations.lookup name = some ref
          → Chan.new.send? ref = some ((sched.subscribe name).1.chans (sched.subscribe name).2) := by
  obtain ⟨⟨⟨valid, safe⟩, carries⟩, _⟩ := latest_inductive.reachable reach
  have stepped := step_session taken
  have woken := Session.holds_of_wakes valid safe carries stepped wakes
  have reached : machine.Reachable Lib.Machine.anyStep mid := reach.next trivial taken
  have still := run_holds run (latest_inductive.reachable reached).1.1.1 woken
  refine ⟨still.filled, fun update rest got => ?_, fun sched name ref tracked => ?_⟩
  · obtain ⟨others, buffer, _⟩ := State.receive?_spec got
    obtain rfl := still.live update (buffer ▸ List.mem_cons_self)
    refine ⟨rfl, fun later after onwards => ?_⟩
    exact .of_run reached (run.unguarded.append onwards) woken.allocated
  · rw [show (sched.subscribe name).2 = sched.nextChan from rfl, Session.chans_subscribe_new,
      tracked]
    rfl

def slowSubscriber : List Call :=
  [.enqueue sampleUUID sampleDigest false "" 0 false, .subscribe sampleName]
    ++ List.replicate 10
      (.updateState sampleName .executing { stage := .executing, actionDigest := sampleDigest } 1)

/-- The full channel drops the completion, and the pointer that is received next shows it. -/
theorem dropped_completion_shown
    : ∃ completed : Logged,
        machine.Reachable Lib.Machine.anyStep completed
        ∧ (completed.session.sched.chans 0).buffer = List.replicate 10 0
        ∧ (completed.session.sched.heap 0).state = .completed
        ∧ ∀ later after, machine.Run Lib.Machine.anyStep completed (.receive 0 :: later) after
            → ShowsSince completed after 0 := by
  let start : Logged :=
    { session := { sched := newScheduler 100 "test-node", issued := [] }, contents := fun _ => [] }
  obtain ⟨s, run, tested⟩ := Lib.Machine.exists_run_of_exec machine start slowSubscriber
    (fun s => s.session.sched.operations.lookup sampleName = some 0
      && s.session.sched.subscribers sampleName = [0]
      && (machine.step s (.complete sampleName none 2)).any
        (fun completed => (completed.session.sched.chans 0).buffer = List.replicate 10 0
          && (completed.session.sched.heap 0).state = .completed))
    (by decide)
  simp only [Bool.and_eq_true, decide_eq_true_eq] at tested
  obtain ⟨⟨tracked, registered⟩, later⟩ := tested
  obtain ⟨completed, taken, shown⟩ := (Option.any_eq_true _ _).mp later
  simp only [Bool.and_eq_true, decide_eq_true_eq] at shown
  have reach : machine.Reachable Lib.Machine.anyStep s :=
    ⟨start, slowSubscriber, ⟨⟨100, "test-node", rfl⟩, rfl⟩, run⟩
  have wakes : s.session.sched.Wakes (.complete sampleName none 2) sampleName 0 0 :=
    .change tracked tracked (registered ▸ List.mem_cons_self)
  obtain ⟨rest, got⟩ : ∃ rest, completed.session.sched.receive? 0 = some (0, rest) := by
    rw [State.receive?, shown.1]
    exact ⟨_, rfl⟩
  refine ⟨completed, reach.next trivial taken, shown.1, shown.2, ?_⟩
  exact ((wakeup_never_lost reach wakes taken (.nil _)).2.1 0 rest got).2

end Logged

end GoREgo.Scheduler
