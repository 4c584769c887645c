import GoREgo.Scheduler.Calls
import GoREgo.Scheduler.Channels
import GoREgo.Lib.Slice

/-! Subscriber channels under any sequence of calls: which are registered, and that none is
closed twice or sent on after it was closed.
The subscriber lists are Go slices. `unsubscribe` removes from them in place, and
`CleanupExpired` drops them under the functions that still search them, so the lists are
also followed at the level of their arrays.
-/

namespace GoREgo.Scheduler

namespace State

structure SameChannels (s s' : State) : Prop where
  subscribers : s'.subscribers = s.subscribers
  chans : s'.chans = s.chans
  nextChan : s'.nextChan = s.nextChan
  panicked : s'.panicked = s.panicked

variable {s s' : State} {name : String}

structure PanicsOn (s s' : State) (name : String) : Prop where
  cause
    : s'.panicked = true
      → s.panicked = true ∨ ∃ ch ∈ s.subscribers name, (s.chans ch).closed = true

theorem PanicsOn.refl (s : State) (name : String) : PanicsOn s s name := ⟨Or.inl⟩

theorem PanicsOn.store {ref : OpRef} {count : Int} {op : OperationStatus}
    : PanicsOn s (s.store name ref count op) name := by
  refine ⟨fun panicked => ?_⟩
  rcases (Bool.or_eq_true _ _).mp panicked with before | closed
  · exact Or.inl before
  · obtain ⟨ch, member, closed⟩ := List.any_eq_true.mp closed
    exact Or.inr ⟨ch, member, closed⟩

theorem updateState_panicsOn (s : State) (name : String) (state : OperationState)
    (metadata : ExecuteOperationMetadata) (now : Int)
    : PanicsOn s (s.updateState name state metadata now) name := by
  cases found : s.operations.lookup name with
  | none =>
      rw [updateState_untracked found]
      exact .refl s name
  | some ref =>
      rw [updateState_tracked found]
      exact .store

theorem finish_panicsOn (s : State) (name : String)
    (record : OperationStatus → OperationStatus) (now : Int)
    : PanicsOn s (s.finish name record now) name := by
  cases found : s.operations.lookup name with
  | none =>
      rw [finish_untracked found]
      exact .refl s name
  | some ref =>
      rw [finish_tracked found]
      exact .store

theorem cancelOperation_panicsOn (s : State) (name : String) (now : Int)
    : PanicsOn s (s.cancelOperation name now).1 name := by
  by_cases queued : ∃ ref, s.operations.lookup name = some ref ∧ (s.heap ref).state = .queued
  · obtain ⟨ref, tracked, queued⟩ := queued
    rw [cancelOperation_queued tracked queued]
    exact .store
  · rw [cancelOperation_refused (fun ref tracked state => queued ⟨ref, tracked, state⟩)]
    exact .refl s name

end State

def Call.registers : Call → Bool
  | .subscribe _ | .unsubscribe _ _ | .cleanupExpired _ => true
  | _ => false

namespace Session

/-- What a call does to channels and subscribers: nothing, a notification of one name's
subscribers, or one of the four operations on them.
-/
inductive Effect (s : Session) : Call → Session → Prop
  | kept {call s'} (plain : call.registers = false)
    (same : s.sched.SameChannels s'.sched)
    : Effect s call s'
  | notified {call s'} (plain : call.registers = false) (name : String)
    (notifies : s.sched.Notifies s'.sched name) (panics : s.sched.PanicsOn s'.sched name)
    : Effect s call s'
  | cleaned {now}
    : Effect s (.cleanupExpired now) { s with sched := s.sched.cleanupExpired now }
  | subscribed {name}
    : Effect s (.subscribe name) { s with sched := (s.sched.subscribe name).1 }
  | unsubscribed {name ch}
    : Effect s (.unsubscribe name ch) { s with sched := s.sched.unsubscribe name ch }
  | received {ch update rest} (buffer : (s.sched.chans ch).buffer = update :: rest)
    : Effect s (.receive ch)
        { s with
          sched :=
            { s.sched with
              chans :=
                Function.update s.sched.chans ch { s.sched.chans ch with buffer := rest } } }

variable {s s' : Session} {call : Call}

theorem enqueue_sameChannels (sched : State) (uuid : UUID) (actionDigest : Digest)
    (skipCache : Bool) (nodeIDOverride : String) (now : Int) (receiver : Bool)
    : sched.SameChannels
        (sched.enqueue uuid actionDigest skipCache nodeIDOverride now receiver).1 := by
  unfold State.enqueue State.offerTask?
  dsimp only
  split
  · exact ⟨rfl, rfl, rfl, rfl⟩
  next sent offered =>
    split at offered
    · obtain rfl := Option.some.inj offered
      exact ⟨rfl, rfl, rfl, rfl⟩
    · split at offered
      · obtain rfl := Option.some.inj offered
        exact ⟨rfl, rfl, rfl, rfl⟩
      · cases offered

theorem step_effect (taken : s.step call = some s') : s.Effect call s' := by
  cases call with
  | enqueue uuid actionDigest skipCache nodeIDOverride now receiver =>
      obtain ⟨_, same⟩ := Option.ite_none_left_eq_some.mp taken
      obtain rfl := Option.some.inj same
      exact .kept rfl (enqueue_sameChannels ..)
  | dequeue =>
      obtain ⟨rest, rfl⟩ := step_dequeue taken
      exact .kept rfl ⟨rfl, rfl, rfl, rfl⟩
  | updateState name state metadata now =>
      obtain rfl := Option.some.inj taken
      exact .notified rfl name (State.updateState_notifies ..) (State.updateState_panicsOn ..)
  | complete name result now =>
      obtain rfl := Option.some.inj taken
      exact .notified rfl name (State.finish_notifies ..) (State.finish_panicsOn ..)
  | fail name error now =>
      obtain rfl := Option.some.inj taken
      exact .notified rfl name (State.finish_notifies ..) (State.finish_panicsOn ..)
  | cancelOperation name now =>
      obtain rfl := Option.some.inj taken
      exact .notified rfl name (State.cancelOperation_notifies ..)
        (State.cancelOperation_panicsOn ..)
  | deleteOperation name =>
      obtain rfl := Option.some.inj taken
      rw [State.deleteOperation_fst]
      exact .kept rfl ⟨rfl, rfl, rfl, rfl⟩
  | cleanupExpired now =>
      obtain rfl := Option.some.inj taken
      exact .cleaned
  | subscribe name =>
      obtain rfl := Option.some.inj taken
      exact .subscribed
  | unsubscribe name ch =>
      obtain rfl := Option.some.inj taken
      exact .unsubscribed
  | receive ch =>
      obtain ⟨⟨update, sched⟩, received, rfl⟩ := Option.map_eq_some_iff.mp taken
      obtain ⟨rest, buffer, rfl⟩ := State.receive?_spec received
      exact .received buffer

end Session

namespace State

/-- Nothing has panicked, every registered channel is allocated and open, and it is registered
once and under one name.
-/
structure Safe (s : State) : Prop where
  calm : s.panicked = false
  allocated : ∀ {name ch}, ch ∈ s.subscribers name → ch < s.nextChan
  opened : ∀ {name ch}, ch ∈ s.subscribers name → (s.chans ch).closed = false
  once : ∀ name, (s.subscribers name).Nodup
  apart
    : ∀ {name other ch}, ch ∈ s.subscribers name → ch ∈ s.subscribers other → name = other

variable {s s' : State} {name other : String} {ch : ChanRef}

theorem newScheduler_safe (queueSize : Nat) (nodeID : String)
    : (newScheduler queueSize nodeID).Safe :=
  ⟨rfl, nofun, nofun, fun _ => List.nodup_nil, nofun⟩

theorem Safe.sublist (safe : s.Safe) (calm : s'.panicked = false)
    (shorter : ∀ name, (s'.subscribers name).Sublist (s.subscribers name))
    (nextChan : s'.nextChan = s.nextChan)
    (closed : ∀ {name ch}, ch ∈ s'.subscribers name → (s'.chans ch).closed = (s.chans ch).closed)
    : s'.Safe where
  calm := calm
  allocated member := nextChan ▸ safe.allocated ((shorter _).subset member)
  opened member := (closed member).trans (safe.opened ((shorter _).subset member))
  once name := (safe.once name).sublist (shorter name)
  apart left right := safe.apart ((shorter _).subset left) ((shorter _).subset right)

theorem Safe.notified (safe : s.Safe) (notifies : s.Notifies s' name)
    (panics : s.PanicsOn s' name)
    : s'.Safe := by
  refine safe.sublist ?_ (fun _ => notifies.subscribers ▸ .refl _) notifies.nextChan
    (fun _ => notifies.closed _)
  cases panicked : s'.panicked with
  | false => rfl
  | true =>
      rcases panics.cause panicked with before | ⟨ch, member, closed⟩
      · exact before.symm.trans safe.calm
      · exact closed.symm.trans (safe.opened member)

theorem subscribers_subscribe (s : State) (name other : String)
    : (s.subscribe name).1.subscribers other
      = if other = name then s.subscribers other ++ [s.nextChan] else s.subscribers other := by
  simp only [subscribe, Function.update_apply]
  split
  next same => rw [same]
  next => rfl

theorem Safe.subscribe (safe : s.Safe) (name : String) : (s.subscribe name).1.Safe := by
  have members {other : String} {ch : ChanRef}
      (member : ch ∈ (s.subscribe name).1.subscribers other)
      : ch ∈ s.subscribers other ∨ (other = name ∧ ch = s.nextChan) := by
    rw [subscribers_subscribe] at member
    split at member
    next same =>
      rcases List.mem_append.mp member with old | new
      · exact Or.inl old
      · exact Or.inr ⟨same, List.mem_singleton.mp new⟩
    next => exact Or.inl member
  refine ⟨safe.calm, fun member => ?_, fun {other ch} member => ?_, fun other => ?_,
    fun {first second ch} left right => ?_⟩
  · rcases members member with old | ⟨_, rfl⟩
    · exact Nat.lt_succ_of_lt (safe.allocated old)
    · exact Nat.lt_succ_self _
  · rcases members member with old | ⟨_, rfl⟩
    · rw [chans_subscribe (safe.allocated old)]
      exact safe.opened old
    · simp [State.subscribe]
  · rw [subscribers_subscribe]
    split
    · refine List.Nodup.append (safe.once other) (List.nodup_singleton _) ?_
      intro ch old new
      obtain rfl := List.mem_singleton.mp new
      exact Nat.lt_irrefl _ (safe.allocated old)
    · exact safe.once other
  · rcases members left with old | ⟨rfl, rfl⟩
    · rcases members right with older | ⟨rfl, rfl⟩
      · exact safe.apart old older
      · exact (Nat.lt_irrefl _ (safe.allocated old)).elim
    · rcases members right with older | ⟨rfl, _⟩
      · exact (Nat.lt_irrefl _ (safe.allocated older)).elim
      · rfl

theorem subscribers_unsubscribe (s : State) (name other : String) (ch : ChanRef)
    : (s.unsubscribe name ch).subscribers other
      = if other = name then (s.subscribers other).erase ch else s.subscribers other := by
  unfold unsubscribe
  split
  next =>
    simp only [Function.update_apply]
    split
    next same => rw [same]
    next => rfl
  next absent =>
    split
    next same =>
      subst same
      exact (List.erase_of_not_mem absent).symm
    next => rfl

theorem Safe.unsubscribe (safe : s.Safe) (name : String) (ch : ChanRef)
    : (s.unsubscribe name ch).Safe := by
  by_cases member : ch ∈ s.subscribers name
  · have gone {other : String} {kept : ChanRef}
        (listed : kept ∈ (s.unsubscribe name ch).subscribers other)
        : kept ≠ ch := by
      rintro rfl
      have same := safe.apart (mem_subscribers_unsubscribe listed) member
      rw [subscribers_unsubscribe, if_pos same] at listed
      exact (safe.once other).not_mem_erase listed
    refine safe.sublist ?_ (fun other => ?_) ?_
      (fun listed => by rw [chans_unsubscribe (gone listed)])
    · simp [State.unsubscribe, member, safe.calm, safe.opened member]
    · rw [subscribers_unsubscribe]
      split
      · exact List.erase_sublist
      · exact .refl _
    · simp [State.unsubscribe, member]
  · rw [State.unsubscribe, if_neg member]
    exact safe

theorem Safe.cleanupExpired (safe : s.Safe) (now : Int) : (s.cleanupExpired now).Safe := by
  refine safe.sublist safe.calm (fun name => ?_) rfl (fun _ => rfl)
  simp only [State.cleanupExpired]
  split
  · exact List.nil_sublist _
  · exact .refl _

end State

namespace Session

theorem Effect.safe {s s' : Session} {call : Call} (effect : s.Effect call s')
    (safe : s.sched.Safe)
    : s'.sched.Safe := by
  cases effect with
  | kept _ same =>
      exact safe.sublist (same.panicked.trans safe.calm) (fun _ => same.subscribers ▸ .refl _)
        same.nextChan (fun _ => by rw [same.chans])
  | notified _ name notifies panics => exact safe.notified notifies panics
  | cleaned => exact safe.cleanupExpired _
  | subscribed => exact safe.subscribe _
  | unsubscribed => exact safe.unsubscribe _ _
  | @received ch update rest buffer =>
      refine safe.sublist safe.calm (fun _ => .refl _) rfl (fun {_ other} _ => ?_)
      by_cases same : other = ch
      · subst same
        simp
      · simp [Function.update_of_ne same]

theorem safe_inductive
    : machine.Inductive Lib.Machine.anyStep (fun s : Session => s.sched.Safe) where
  start s initial := by
    obtain ⟨queueSize, nodeID, rfl⟩ := initial
    exact State.newScheduler_safe queueSize nodeID
  keeps _ _ _ safe _ taken := (step_effect taken).safe safe

end Session

/-- A session whose subscriber lists are the slices of a map; the lists inside `rest` are not
used.
-/
structure Sliced where
  rest : Session
  table : Lib.SliceMap String ChanRef

namespace Sliced

/-- What the methods read: the session with the lists that the slices show. -/
def session (s : Sliced) : Session :=
  { s.rest with sched := { s.rest.sched with subscribers := s.table.list } }

/-- The slices after a call. Only three methods assign to the map: `Subscribe` appends,
`unsubscribe` removes in place, and `CleanupExpired` deletes the expired names. `spare` is
what an append allocates behind the elements.
-/
def tableAfter (s : Sliced) (spare : List ChanRef) : Call → Lib.SliceMap String ChanRef
  | .subscribe name => s.table.add name s.rest.sched.nextChan spare
  | .unsubscribe name ch => s.table.remove name ch
  | .cleanupExpired now =>
      (s.rest.sched.operations.keys.filter (s.rest.sched.expired now)).foldl
        (fun table name => table.delete name) s.table
  | _ => s.table

def step (s : Sliced) (label : Call × List ChanRef) : Option Sliced :=
  (s.session.step label.1).map (fun rest => { rest, table := s.tableAfter label.2 label.1 })

def machine : Lib.Machine Sliced (Call × List ChanRef) where
  initial s := Session.machine.initial s.rest ∧ s.table = .empty
  step := step

variable {s s' : Sliced}

/-- Deleting names in turn empties their lists, by induction over the names. -/
theorem foldl_delete (names : List String) {table : Lib.SliceMap String ChanRef}
    (owned : table.Owned)
    : (names.foldl (fun table name => table.delete name) table).Owned
      ∧ (names.foldl (fun table name => table.delete name) table).list
        = fun name => if name ∈ names then [] else table.list name := by
  induction names generalizing table with
  | nil => exact ⟨owned, by simp⟩
  | cons head rest ih =>
      obtain ⟨kept, list⟩ := owned.delete head
      obtain ⟨after, lists⟩ := ih kept
      refine ⟨after, ?_⟩
      rw [List.foldl_cons, lists, list]
      funext name
      by_cases same : name = head
      · simp [same]
      · simp [same]

theorem tableAfter_plain {call : Call} (plain : call.registers = false)
    (spare : List ChanRef)
    : s.tableAfter spare call = s.table := by
  cases call with
  | subscribe | unsubscribe | cleanupExpired => cases plain
  | enqueue | dequeue | updateState | complete | fail | cancelOperation | deleteOperation
  | receive => rfl

theorem tableAfter_spec (owned : s.table.Owned) (spare : List ChanRef) {call : Call}
    {next : Session} (taken : s.session.step call = some next)
    : (s.tableAfter spare call).Owned
      ∧ (s.tableAfter spare call).list = next.sched.subscribers := by
  cases Session.step_effect taken with
  | kept plain same =>
      rw [tableAfter_plain plain]
      exact ⟨owned, same.subscribers.symm⟩
  | notified plain name notifies panics =>
      rw [tableAfter_plain plain]
      exact ⟨owned, notifies.subscribers.symm⟩
  | cleaned => exact foldl_delete _ owned
  | @subscribed name => exact owned.add name _ spare
  | @unsubscribed name ch =>
      obtain ⟨kept, list⟩ := owned.remove name ch
      refine ⟨kept, list.trans (funext fun other => ?_)⟩
      rw [State.subscribers_unsubscribe, Function.update_apply]
      split
      next same =>
        rw [same]
        rfl
      next => rfl
  | received buffer => exact ⟨owned, rfl⟩

theorem step_session (owned : s.table.Owned) {label : Call × List ChanRef}
    (taken : s.step label = some s')
    : s'.table.Owned ∧ s.session.step label.1 = some s'.session := by
  obtain ⟨next, stepped, rfl⟩ := Option.map_eq_some_iff.mp taken
  obtain ⟨after, list⟩ := tableAfter_spec owned label.2 stepped
  refine ⟨after, stepped.trans (congrArg some ?_)⟩
  simp [session, list]

theorem safe_inductive
    : machine.Inductive Lib.Machine.anyStep
        (fun s => s.table.Owned ∧ s.session.sched.Safe) where
  start s initial := by
    obtain ⟨⟨queueSize, nodeID, rest⟩, table⟩ := initial
    rw [table]
    refine ⟨Lib.SliceMap.owned_empty, ?_⟩
    have shown : s.session = s.rest := by
      simp only [session, table, rest]
      rfl
    rw [shown, rest]
    exact State.newScheduler_safe queueSize nodeID
  keeps s label s' holds _ taken := by
    obtain ⟨owned, stepped⟩ := step_session holds.1 taken
    exact ⟨owned, (Session.step_effect stepped).safe holds.2⟩

def subscribers (s : Sliced) (name : String) : List ChanRef := s.table.list name

/-- Subscriber channels are used safely, whatever the calls: nothing is closed twice or sent
on after it was closed, every registered channel is open and registered once, and an
unsubscription leaves every other channel registered, in its order.
-/
theorem channels_used_safely (reach : machine.Reachable Lib.Machine.anyStep s)
    : s.rest.sched.panicked = false
      ∧ (∀ name, (s.subscribers name).Nodup)
      ∧ (∀ name, ∀ ch ∈ s.subscribers name, (s.rest.sched.chans ch).closed = false)
      ∧ ∀ name ch spare s', s.step (.unsubscribe name ch, spare) = some s'
          → s'.subscribers name = (s.subscribers name).filter (fun other => other != ch)
            ∧ ∀ other, other ≠ name → s'.subscribers other = s.subscribers other := by
  obtain ⟨owned, safe⟩ := safe_inductive.reachable reach
  refine ⟨safe.calm, safe.once, fun name ch member => safe.opened member, ?_⟩
  intro name ch spare s' taken
  obtain ⟨_, stepped⟩ := step_session owned taken
  obtain rest := Option.some.inj stepped
  have lists (other : String)
      : s'.subscribers other
        = if other = name then (s.subscribers other).erase ch else s.subscribers other := by
    have after := congrArg (fun s : Session => s.sched.subscribers other) rest
    exact after.symm.trans (State.subscribers_unsubscribe ..)
  have once : (s.subscribers name).Nodup := safe.once name
  refine ⟨?_, fun other apart => by rw [lists, if_neg apart]⟩
  rw [lists, if_pos rfl, once.erase_eq_filter]

/-- Three subscribers, of which the second leaves twice, around a completion; the cleanup then
drops the list under the other two, and a new subscriber comes before one of them leaves.
-/
def comingAndGoing : List (Call × List ChanRef) :=
  [(.enqueue sampleUUID sampleDigest false "" 0 false, []), (.subscribe sampleName, [7]),
    (.subscribe sampleName, []), (.subscribe sampleName, [7, 7]),
    (.unsubscribe sampleName 1, []), (.unsubscribe sampleName 1, []),
    (.complete sampleName none 1, []), (.cleanupExpired 700000000000, []),
    (.subscribe sampleName, []), (.unsubscribe sampleName 0, [])]

/-- The late unsubscription finds a list without its channel and leaves the new one alone. -/
theorem comingAndGoing_safe
    : ∃ s, machine.Reachable Lib.Machine.anyStep s ∧ s.subscribers sampleName = [3]
        ∧ s.rest.sched.panicked = false := by
  let start : Sliced :=
    { rest := { sched := newScheduler 100 "test-node", issued := [] }, table := .empty }
  obtain ⟨s, run, listed⟩ := Lib.Machine.exists_run_of_exec machine start comingAndGoing
    (fun s => s.subscribers sampleName = [3]) (by decide)
  have reach : machine.Reachable Lib.Machine.anyStep s :=
    ⟨start, comingAndGoing, ⟨⟨100, "test-node", rfl⟩, rfl⟩, run⟩
  exact ⟨s, reach, of_decide_eq_true listed, (channels_used_safely reach).1⟩

end Sliced

end GoREgo.Scheduler
