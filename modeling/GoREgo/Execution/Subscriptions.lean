import GoREgo.Execution.TaskOwnership
import GoREgo.Scheduler.Subscribers

/-! Every stream handler listens on a channel of its own, open until it unsubscribes, that
only ever carries pointers to the record of the handler's operation.
-/

namespace GoREgo.Execution

open Scheduler

def Pc.listens : Pc → Option (String × ChanRef)
  | .greeting name ch _ | .receiving name ch | .received name ch _ | .sending name ch _ _
  | .checking name ch _ | .unsubscribing name ch _ => some (name, ch)
  | _ => none

def Pc.holds : Pc → Option (String × OpRef)
  | .received name _ update | .sending name _ update _ | .checking name _ update =>
      some (name, update)
  | _ => none

def Carries (sched : State) (ref : OpRef) (name : String) : Prop :=
  ref < sched.nextOp ∧ (sched.heap ref).name = name

namespace System

variable {W H : Type} {s s' : System W H} {label : Label W H}

structure Subscribed (s : System W H) : Prop where
  registered : ∀ {name ch}, ch ∈ s.sched.subscribers name → ch < s.sched.nextChan
  allocated
    : ∀ {h name ch}, (s.handlers h).pc.listens = some (name, ch) → ch < s.sched.nextChan
  isOpen
    : ∀ {h name ch}, (s.handlers h).pc.listens = some (name, ch)
      → (s.sched.chans ch).closed = false
  topic
    : ∀ {h name ch other}, (s.handlers h).pc.listens = some (name, ch)
      → ch ∈ s.sched.subscribers other
      → other = name
  buffer
    : ∀ {h name ch ref}, (s.handlers h).pc.listens = some (name, ch)
      → ref ∈ (s.sched.chans ch).buffer
      → Carries s.sched ref name
  holds
    : ∀ {h name ref}, (s.handlers h).pc.holds = some (name, ref) → Carries s.sched ref name
  own
    : ∀ {h h' name name' ch}, (s.handlers h).pc.listens = some (name, ch)
      → (s.handlers h').pc.listens = some (name', ch)
      → h = h'

theorem subscribed_new (queueSize : Nat) (nodeID : String)
    : (new queueSize nodeID : System W H).Subscribed where
  registered member := by cases member
  allocated listens := by cases listens
  isOpen listens := by cases listens
  topic listens := by cases listens
  buffer listens := by cases listens
  holds holds := by cases holds
  own listens := by cases listens

/-- A step that registers no channel keeps the subscriptions when listening channels stay
open and gain only pointers to their own record.
-/
theorem Subscribed.carry (subscribed : s.Subscribed)
    (records : ∀ {ref name}, Carries s.sched ref name → Carries s'.sched ref name)
    (nextChan : s'.sched.nextChan = s.sched.nextChan)
    (registered
      : ∀ {name ch}, ch ∈ s'.sched.subscribers name → ch ∈ s.sched.subscribers name)
    (listens
      : ∀ {h name ch}, (s'.handlers h).pc.listens = some (name, ch)
        → (s.handlers h).pc.listens = some (name, ch))
    (isOpen
      : ∀ {h name ch}, (s'.handlers h).pc.listens = some (name, ch)
        → (s'.sched.chans ch).closed = (s.sched.chans ch).closed)
    (buffer
      : ∀ {h name ch ref}, (s'.handlers h).pc.listens = some (name, ch)
        → ref ∈ (s'.sched.chans ch).buffer
        → ref ∈ (s.sched.chans ch).buffer ∨ Carries s'.sched ref name)
    (holds
      : ∀ {h name ref}, (s'.handlers h).pc.holds = some (name, ref)
        → (s.handlers h).pc.holds = some (name, ref) ∨ Carries s'.sched ref name)
    : s'.Subscribed where
  registered member := nextChan ▸ subscribed.registered (registered member)
  allocated listening := nextChan ▸ subscribed.allocated (listens listening)
  isOpen listening := (isOpen listening).trans (subscribed.isOpen (listens listening))
  topic listening member := subscribed.topic (listens listening) (registered member)
  buffer listening member := by
    rcases buffer listening member with older | carries
    · exact records (subscribed.buffer (listens listening) older)
    · exact carries
  holds held := by
    rcases holds held with before | carries
    · exact records (subscribed.holds before)
    · exact carries
  own left right := subscribed.own (listens left) (listens right)

theorem Subscribed.notify (subscribed : s.Subscribed) (owned : s.Owned)
    (records : ∀ {ref name}, Carries s.sched ref name → Carries s'.sched ref name)
    {notified : String} (notifies : s.sched.Notifies s'.sched notified)
    (listens
      : ∀ {h name ch}, (s'.handlers h).pc.listens = some (name, ch)
        → (s.handlers h).pc.listens = some (name, ch))
    (holds
      : ∀ {h name ref}, (s'.handlers h).pc.holds = some (name, ref)
        → (s.handlers h).pc.holds = some (name, ref))
    : s'.Subscribed := by
  refine subscribed.carry records notifies.nextChan
    (fun member => notifies.subscribers ▸ member) listens (fun _ => notifies.closed _) ?_
    (fun held => Or.inl (holds held))
  intro h name ch ref listening member
  by_cases registered : ch ∈ s.sched.subscribers notified
  · rcases notifies.grows member with older | tracked
    · exact Or.inl older
    · obtain rfl := subscribed.topic (listens listening) registered
      exact Or.inr (records
        ⟨owned.wellFormed.allocated tracked, owned.wellFormed.named tracked⟩)
  · rw [notifies.others registered] at member
    exact Or.inl member

variable {name : String} {h : H}

theorem Effect.carries [DecidableEq W] [DecidableEq H] (effect : s.Effect label s') {ref : OpRef}
    (carries : Carries s.sched ref name)
    : Carries s'.sched ref name := by
  obtain ⟨kept, sameName⟩ := effect.record_kept carries.1
  exact ⟨kept, sameName.trans carries.2⟩

theorem Subscribed.move [DecidableEq H] (subscribed : s.Subscribed)
    (records : ∀ {ref name}, Carries s.sched ref name → Carries s'.sched ref name)
    {handler : Handler} (nextChan : s'.sched.nextChan = s.sched.nextChan)
    (subscribers : s'.sched.subscribers = s.sched.subscribers)
    (chans : s'.sched.chans = s.sched.chans)
    (handlers : s'.handlers = Function.update s.handlers h handler) (listens
      : ∀ topic, handler.pc.listens = some topic → (s.handlers h).pc.listens = some topic)
    (holds : ∀ held, handler.pc.holds = some held → (s.handlers h).pc.holds = some held)
    : s'.Subscribed := by
  refine subscribed.carry records nextChan (fun member => subscribers ▸ member) ?_
    (fun _ => by rw [chans]) (fun _ member => Or.inl (chans ▸ member)) ?_
  · intro other name ch listening
    rw [handlers] at listening
    rcases pc_cases Pc.listens listening with ⟨rfl, here⟩ | ⟨_, before⟩
    · exact listens _ here
    · exact before
  · intro other name ref held
    rw [handlers] at held
    rcases pc_cases Pc.holds held with ⟨rfl, here⟩ | ⟨_, before⟩
    · exact Or.inl (holds _ here)
    · exact Or.inl before

theorem Subscribed.subscribe [DecidableEq H] (subscribed : s.Subscribed) (owned : s.Owned)
    {first : Option Operation} (pc : (s.handlers h).pc = .subscribing name first)
    : Subscribed { s with
        sched := (s.sched.subscribe name).1
        handlers :=
          Function.update s.handlers h
            { s.handlers h with
              pc := afterSubscribe name (s.sched.subscribe name).2 first } } := by
  have pcs (other : H) (topic : String × ChanRef)
      (listening
        : (Function.update s.handlers h { s.handlers h with
              pc := afterSubscribe name (s.sched.subscribe name).2 first } other).pc.listens
          = some topic)
      : (other = h ∧ topic = (name, s.sched.nextChan))
        ∨ (other ≠ h ∧ (s.handlers other).pc.listens = some topic
          ∧ topic.2 < s.sched.nextChan) := by
    rcases pc_cases Pc.listens listening with ⟨rfl, here⟩ | ⟨apart, before⟩
    · cases first <;> exact Or.inl ⟨rfl, (Option.some.inj here).symm⟩
    · exact Or.inr ⟨apart, before, subscribed.allocated before⟩
  have members {other : String} {ch : ChanRef}
      (member : ch ∈ (s.sched.subscribe name).1.subscribers other)
      : ch ∈ s.sched.subscribers other ∨ (other = name ∧ ch = s.sched.nextChan) := by
    simp only [State.subscribe] at member
    by_cases same : other = name
    · subst same
      rw [Function.update_self] at member
      rcases List.mem_append.mp member with older | new
      · exact Or.inl older
      · exact Or.inr ⟨rfl, List.mem_singleton.mp new⟩
    · rw [Function.update_of_ne same] at member
      exact Or.inl member
  refine ⟨?_, ?_, ?_, ?_, ?_, ?_, ?_⟩
  · intro other ch member
    rcases members member with older | ⟨_, rfl⟩
    · exact Nat.lt_succ_of_lt (subscribed.registered older)
    · exact Nat.lt_succ_self _
  · intro other topic ch listening
    rcases pcs other _ listening with ⟨_, same⟩ | ⟨_, _, below⟩
    · cases same
      exact Nat.lt_succ_self _
    · exact Nat.lt_succ_of_lt below
  · intro other topic ch listening
    rcases pcs other _ listening with ⟨_, same⟩ | ⟨_, before, below⟩
    · cases same
      simp [State.subscribe]
    · dsimp only
      rw [State.chans_subscribe below]
      exact subscribed.isOpen before
  · intro other topic ch registered listening member
    rcases pcs other _ listening with ⟨_, same⟩ | ⟨_, before, below⟩
    · cases same
      rcases members member with older | ⟨rfl, _⟩
      · exact (Nat.lt_irrefl _ (subscribed.registered older)).elim
      · rfl
    · rcases members member with older | ⟨_, rfl⟩
      · exact subscribed.topic before older
      · exact (Nat.lt_irrefl _ below).elim
  · intro other topic ch ref listening member
    rcases pcs other _ listening with ⟨_, same⟩ | ⟨_, before, below⟩
    · cases same
      simp only [State.subscribe, Function.update_self] at member
      split at member
      next found =>
        obtain rfl := List.mem_singleton.mp member
        exact ⟨owned.wellFormed.allocated found, owned.wellFormed.named found⟩
      next => cases member
    · dsimp only at member
      rw [State.chans_subscribe below] at member
      exact subscribed.buffer before member
  · intro other topic ref held
    rcases pc_cases Pc.holds held with ⟨_, here⟩ | ⟨_, before⟩
    · cases first <;> cases here
    · exact subscribed.holds before
  · intro left right leftTopic rightTopic ch leftListens rightListens
    rcases pcs left _ leftListens with ⟨rfl, same⟩ | ⟨_, leftBefore, leftBelow⟩
    · cases same
      rcases pcs right _ rightListens with ⟨rfl, _⟩ | ⟨_, _, below⟩
      · rfl
      · exact (Nat.lt_irrefl _ below).elim
    · rcases pcs right _ rightListens with ⟨rfl, same⟩ | ⟨_, rightBefore, _⟩
      · cases same
        exact (Nat.lt_irrefl _ leftBelow).elim
      · exact subscribed.own leftBefore rightBefore

theorem Subscribed.receive [DecidableEq H] (subscribed : s.Subscribed) {ch : ChanRef}
    {update : OpRef} {taken : State}
    (records : ∀ {ref name}, Carries s.sched ref name → Carries taken ref name)
    (pc : (s.handlers h).pc = .receiving name ch) (got : s.sched.receive? ch = some (update, taken))
    : Subscribed { s with
        sched := taken
        handlers :=
          Function.update s.handlers h
            { s.handlers h with pc := .received name ch update } } := by
  obtain ⟨rest, buffer, rfl⟩ := State.receive?_spec got
  have here : (s.handlers h).pc.listens = some (name, ch) := by
    rw [pc]
    rfl
  refine subscribed.carry records rfl (fun member => member) ?_ ?_ ?_ ?_
  · intro other topic ch' listening
    rcases pc_cases Pc.listens listening with ⟨rfl, same⟩ | ⟨_, before⟩
    · exact here.trans same
    · exact before
  · intro other topic ch' _
    dsimp only
    by_cases same : ch' = ch
    · subst same
      rw [Function.update_self]
    · rw [Function.update_of_ne same]
  · intro other topic ch' ref _ member
    dsimp only at member
    by_cases same : ch' = ch
    · subst same
      rw [Function.update_self] at member
      rw [buffer]
      exact Or.inl (List.mem_cons_of_mem _ member)
    · rw [Function.update_of_ne same] at member
      exact Or.inl member
  · intro other topic ref held
    rcases pc_cases Pc.holds held with ⟨_, same⟩ | ⟨_, before⟩
    · cases same
      refine Or.inr (records (subscribed.buffer here ?_))
      rw [buffer]
      exact List.mem_cons_self
    · exact Or.inl before

theorem Subscribed.unsubscribe [DecidableEq H] (subscribed : s.Subscribed) {ch : ChanRef}
    {result : Option GoError} (records
      : ∀ {ref other}, Carries s.sched ref other
        → Carries (s.sched.unsubscribe name ch) ref other)
    (pc : (s.handlers h).pc = .unsubscribing name ch result)
    : Subscribed { s with
        sched := s.sched.unsubscribe name ch
        handlers :=
          Function.update s.handlers h { s.handlers h with pc := .returned result } } := by
  have here : (s.handlers h).pc.listens = some (name, ch) := by
    rw [pc]
    rfl
  have others {other : H} {topic : String} {ch' : ChanRef}
      (listening
        : (Function.update s.handlers h
            { s.handlers h with pc := .returned result } other).pc.listens
          = some (topic, ch'))
      : (s.handlers other).pc.listens = some (topic, ch') ∧ ch' ≠ ch := by
    obtain ⟨apart, before⟩ := pc_update Pc.listens rfl listening
    exact ⟨before, fun same => apart (subscribed.own before (same ▸ here))⟩
  refine subscribed.carry records ?_ State.mem_subscribers_unsubscribe
    (fun listening => (others listening).1) ?_ ?_ ?_
  · unfold State.unsubscribe
    split <;> rfl
  · intro other topic ch' listening
    rw [State.chans_unsubscribe (others listening).2]
  · intro other topic ch' ref listening member
    rw [State.chans_unsubscribe (others listening).2] at member
    exact Or.inl member
  · intro other topic ref held
    exact Or.inl (pc_update Pc.holds rfl held).2

theorem Subscribed.effect [DecidableEq W] [DecidableEq H] (subscribed : s.Subscribed) (owned : s.Owned)
    (effect : s.Effect label s')
    : s'.Subscribed := by
  have records {ref : OpRef} {name : String}
      : Carries s.sched ref name → Carries s'.sched ref name :=
    effect.carries
  cases effect with
  | full | sent | handed =>
      refine subscribed.move records rfl rfl rfl rfl ?_ ?_ <;> intro _ seen <;> cases seen
  | @insert h task request pc locked =>
      refine subscribed.move records rfl rfl rfl rfl ?_ ?_ <;> intro _ seen <;>
        cases request <;> cases seen
  | @quiet h move sched' handler' moved unlocked other same before after =>
      cases moved with
      | complete pc => exact (other _ rfl).elim
      | subscribe pc => exact subscribed.subscribe owned pc
      | receive pc got => exact subscribed.receive records pc got
      | unsubscribe pc => exact subscribed.unsubscribe records pc
      | fetchGone pc | fetch pc | skip pc | snapshot pc | reply pc | replyFailed pc | greet pc
      | greetFailed pc | report pc | reportFailed pc | closed pc | stop pc | resume pc
      | waitGone pc | waitDone pc | wait pc =>
          refine subscribed.move records rfl rfl rfl rfl ?_ ?_ <;> intro _ seen <;>
            rw [pc] <;> first | exact seen | cases seen
  | completed unlocked pc =>
      exact subscribed.notify owned records (State.finish_notifies ..)
        (fun listening => (pc_update Pc.listens rfl listening).2)
        (fun held => (pc_update Pc.holds rfl held).2)
  | dequeue idle queue =>
      exact subscribed.carry records rfl (fun member => member) (fun listening => listening)
        (fun _ => rfl) (fun _ member => Or.inl member) Or.inl
  | updateState held unlocked =>
      exact subscribed.notify owned records (State.updateState_notifies ..)
        (fun listening => listening) (fun held => held)
  | @finish w outcome now task runs unlocked =>
      cases outcome <;>
        exact subscribed.notify owned records (State.finish_notifies ..)
          (fun listening => listening) (fun held => held)
  | cancelOperation unlocked =>
      exact subscribed.notify owned records (State.cancelOperation_notifies ..)
        (fun listening => listening) (fun held => held)
  | deleteOperation unlocked =>
      refine subscribed.carry records ?_ ?_ (fun listening => listening) ?_ ?_ Or.inl
      · rw [State.deleteOperation_fst]
      · intro name ch member
        rwa [State.deleteOperation_fst] at member
      · intro h name ch _
        rw [State.deleteOperation_fst]
      · intro h name ch ref _ member
        rw [State.deleteOperation_fst] at member
        exact Or.inl member
  | cleanupExpired unlocked =>
      exact subscribed.carry records rfl State.mem_subscribers_cleanupExpired
        (fun listening => listening) (fun _ => rfl) (fun _ member => Or.inl member) Or.inl

theorem subscribed_inductive [DecidableEq W] [DecidableEq H]
    : (machine : Lib.Machine (System W H) (Label W H)).Inductive Lib.Machine.anyStep
        (fun s => s.Owned ∧ s.Subscribed) :=
  owned_inductive.strengthen
    (fun s initial => by
      obtain ⟨queueSize, nodeID, rfl⟩ := initial
      exact subscribed_new queueSize nodeID)
    (fun _ _ _ owned subscribed _ taken => subscribed.effect owned (step_effect taken))

/-- Every channel is registered once, for a handler that has not unsubscribed it yet. -/
structure Attended (s : System W H) : Prop where
  once : ∀ name, (s.sched.subscribers name).Nodup
  handled
    : ∀ {name ch}, ch ∈ s.sched.subscribers name
      → ∃ h, (s.handlers h).pc.listens = some (name, ch)

theorem Attended.carry (attended : s.Attended)
    (fewer : ∀ name, (s'.sched.subscribers name).Sublist (s.sched.subscribers name))
    (handlers : s'.handlers = s.handlers)
    : s'.Attended where
  once name := (attended.once name).sublist (fewer name)
  handled member := handlers ▸ attended.handled ((fewer _).subset member)

theorem Attended.same (attended : s.Attended)
    (subscribers : s'.sched.subscribers = s.sched.subscribers)
    (handlers : s'.handlers = s.handlers)
    : s'.Attended :=
  attended.carry (fun _ => subscribers ▸ .refl _) handlers

variable {handler : Handler}

/-- A handler that moves leaves the channels of the others attended. -/
theorem Attended.others [DecidableEq H] (attended : s.Attended) {topic : String × ChanRef}
    (handlers : s'.handlers = Function.update s.handlers h handler)
    (member : topic.2 ∈ s.sched.subscribers topic.1)
    (apart : (s.handlers h).pc.listens ≠ some topic)
    : ∃ other, (s'.handlers other).pc.listens = some topic := by
  obtain ⟨other, listening⟩ := attended.handled member
  refine ⟨other, ?_⟩
  rwa [handlers, Function.update_of_ne]
  rintro rfl
  exact apart listening

theorem Attended.move [DecidableEq H] (attended : s.Attended)
    (subscribers : s'.sched.subscribers = s.sched.subscribers)
    (handlers : s'.handlers = Function.update s.handlers h handler) (listens
      : ∀ topic, (s.handlers h).pc.listens = some topic → handler.pc.listens = some topic)
    : s'.Attended where
  once name := subscribers ▸ attended.once name
  handled {name ch} member := by
    rw [subscribers] at member
    by_cases own : (s.handlers h).pc.listens = some (name, ch)
    · refine ⟨h, ?_⟩
      rw [handlers, Function.update_self]
      exact listens _ own
    · exact attended.others handlers member own

theorem Attended.subscribe [DecidableEq H] (attended : s.Attended) (subscribed : s.Subscribed)
    (idle : (s.handlers h).pc.listens = none) (sched : s'.sched = (s.sched.subscribe name).1)
    (handlers : s'.handlers = Function.update s.handlers h handler)
    (listens : handler.pc.listens = some (name, s.sched.nextChan))
    : s'.Attended where
  once other := by
    rw [sched, State.subscribers_subscribe]
    split
    · refine (attended.once other).append (List.nodup_singleton _) (fun ch old new => ?_)
      obtain rfl := List.mem_singleton.mp new
      exact Nat.lt_irrefl _ (subscribed.registered old)
    · exact attended.once other
  handled {topic ch} member := by
    rw [sched, State.subscribers_subscribe] at member
    by_cases old : ch ∈ s.sched.subscribers topic
    · exact attended.others handlers old (by simp [idle])
    · obtain ⟨rfl, rfl⟩ : topic = name ∧ ch = s.sched.nextChan := by grind
      exact ⟨h, by rw [handlers, Function.update_self, listens]⟩

/-- The channel of the handler goes, and with it the only place where it was registered. -/
theorem Attended.unsubscribe [DecidableEq H] (attended : s.Attended) {ch : ChanRef}
    (listens : (s.handlers h).pc.listens = some (name, ch))
    (sched : s'.sched = s.sched.unsubscribe name ch)
    (handlers : s'.handlers = Function.update s.handlers h handler)
    : s'.Attended where
  once other := by
    rw [sched, State.subscribers_unsubscribe]
    split
    · exact (attended.once other).erase ch
    · exact attended.once other
  handled {topic kept} member := by
    rw [sched] at member
    refine attended.others handlers (State.mem_subscribers_unsubscribe member) ?_
    intro own
    obtain ⟨rfl, rfl⟩ := Prod.mk.inj (Option.some.inj (listens.symm.trans own))
    rw [State.subscribers_unsubscribe, if_pos rfl] at member
    exact (attended.once name).not_mem_erase member

theorem Attended.effect [DecidableEq W] [DecidableEq H] (attended : s.Attended)
    (subscribed : s.Subscribed) (effect : s.Effect label s')
    : s'.Attended := by
  cases effect with
  | full _ pc | sent _ pc | handed _ pc | insert pc | completed _ pc =>
      refine attended.move ?_ rfl (fun _ seen => by rw [pc] at seen; cases seen)
      first | rfl | exact (State.finish_notifies ..).subscribers
  | quiet moved _ other =>
      cases moved with
      | complete pc => exact (other _ rfl).elim
      | @subscribe name first pc =>
          refine attended.subscribe subscribed (by rw [pc]; rfl) rfl rfl ?_
          cases first <;> rfl
      | unsubscribe pc => exact attended.unsubscribe (by rw [pc]; rfl) rfl rfl
      | receive pc got =>
          obtain ⟨rest, buffer, rfl⟩ := State.receive?_spec got
          exact attended.move rfl rfl (fun _ seen => by rwa [pc] at seen)
      | fetchGone pc | fetch pc | skip pc | snapshot pc | reply pc | replyFailed pc | greet pc
      | greetFailed pc | report pc | reportFailed pc | closed pc | stop pc | resume pc
      | waitGone pc | waitDone pc | wait pc =>
          refine attended.move rfl rfl (fun _ seen => ?_)
          rw [pc] at seen
          exact seen
  | dequeue => exact attended.carry (fun _ => .refl _) rfl
  | updateState => exact attended.same (State.updateState_notifies ..).subscribers rfl
  | @finish w outcome =>
      cases outcome <;> exact attended.same (State.finish_notifies ..).subscribers rfl
  | cancelOperation => exact attended.same (State.cancelOperation_notifies ..).subscribers rfl
  | deleteOperation => exact attended.same (by rw [State.deleteOperation_fst]) rfl
  | cleanupExpired =>
      refine attended.carry (fun name => ?_) rfl
      simp only [State.cleanupExpired]
      split
      · exact List.nil_sublist _
      · exact .refl _

/-- Subscriptions do not leak. In every state the registered channels are registered once, each
for exactly one handler, which is still to unsubscribe it; when all calls that were made have
returned there are none.
-/
theorem no_subscription_leaks [DecidableEq W] [DecidableEq H]
    (reach : machine.Reachable Lib.Machine.anyStep s)
    : (∀ name, (s.sched.subscribers name).Nodup)
      ∧ (∀ name, ∀ ch ∈ s.sched.subscribers name,
          ∃! h, (s.handlers h).pc.listens = some (name, ch))
      ∧ ((∀ h, (s.handlers h).pc = .idle ∨ ∃ result, (s.handlers h).pc = .returned result) →
          ∀ name, s.sched.subscribers name = []) := by
  have inv : (machine : Lib.Machine (System W H) (Label W H)).Inductive Lib.Machine.anyStep
      (fun s => (s.Owned ∧ s.Subscribed) ∧ s.Attended) :=
    subscribed_inductive.strengthen
      (fun s initial => by
        obtain ⟨queueSize, nodeID, rfl⟩ := initial
        exact ⟨fun _ => List.nodup_nil, fun member => by cases member⟩)
      (fun _ _ _ both attended _ taken => attended.effect both.2 (step_effect taken))
  obtain ⟨⟨-, subscribed⟩, attended⟩ := inv.reachable reach
  refine ⟨attended.once, fun name ch member => ?_, fun returned name => ?_⟩
  · obtain ⟨h, listening⟩ := attended.handled member
    exact ⟨h, listening, fun other also => subscribed.own also listening⟩
  · refine List.eq_nil_iff_forall_not_mem.mpr (fun ch member => ?_)
    obtain ⟨h, listening⟩ := attended.handled member
    rcases returned h with idle | ⟨result, ended⟩
    · rw [idle] at listening
      cases listening
    · rw [ended] at listening
      cases listening

/-- While a stream runs, its channel is registered for its handler alone. -/
theorem running_stream_registered
    : ∃ s : System (Fin 2) (Fin 2), machine.Reachable Lib.Machine.anyStep s
        ∧ s.sched.subscribers sampleName = [0]
        ∧ ∃! h, (s.handlers h).pc.listens = some (sampleName, 0) := by
  obtain ⟨s, run, registered⟩ := Lib.Machine.exists_run_of_exec machine testNode
    [.enqueue 0 (.execute sampleDigest false "") sampleUUID 0 none, .insert 0,
      .handler 0 .subscribe]
    (fun s => s.sched.subscribers sampleName = [0]) (by decide)
  have listed := of_decide_eq_true registered
  have reach : machine.Reachable Lib.Machine.anyStep s :=
    ⟨testNode, _, ⟨100, "test-node", rfl⟩, run⟩
  exact ⟨s, reach, listed, (no_subscription_leaks reach).2.1 _ _ (by simp [listed])⟩

end System

end GoREgo.Execution
