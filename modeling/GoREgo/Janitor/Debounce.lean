import GoREgo.Lib.Machine

/-! The janitor's debounced loop: `Notify` from any goroutine, the select of `Run`, and the
timers of `time.AfterFunc` with the goroutines that they start.
Both channels have one slot and are only sent to without blocking, so a send leaves the slot
full whether it stored a value or dropped one. A timer may expire at any moment after it was
armed; stopping it has no effect on a goroutine that has already been started.
-/

namespace GoREgo.Janitor.Debounce

open Lib

/-- A timer of `time.AfterFunc`. A firing one has started its goroutine, which has not sent
yet.
-/
inductive Timer
  | armed | firing | fired | stopped
deriving DecidableEq, Repr

/-- `Timer.Stop`: it only prevents a timer that has not expired. -/
def Timer.stop : Timer → Timer
  | .armed => .stopped
  | timer => timer

def Timer.Live (timer : Timer) : Prop := timer = .armed ∨ timer = .firing

/-- Where `Run` stands. After `notified` it stops the old timer, drains the channel and arms a
new timer; after `elapsed` it calls `Cleanup`; after `cancelled` it stops the timer and
returns.
-/
inductive Pc
  | selecting
  | notified | draining | arming
  | elapsed | cleaning
  | cancelled | returned
deriving DecidableEq, Repr

def Pc.Between : Pc → Prop
  | .notified | .draining | .arming | .elapsed => True
  | _ => False

/-- The janitor's channels, the timers that `Run` has created, in order, the one that
`debounceTimer` points to, and whether the context is cancelled. `owed` records that a
`Notify` came after the start of the latest `Cleanup`.
-/
structure State where
  notifyCh : Bool
  debounceCh : Bool
  timers : List Timer
  debounceTimer : Option Nat
  pc : Pc
  cancelled : Bool
  owed : Bool
deriving DecidableEq, Repr

/-- One step: a `Notify` call, the end of a timer's duration, the send of its goroutine, the
cancellation of the context, or a step of `Run`. The three `take` steps are the ready cases
of its select.
-/
inductive Label
  | notify
  | expire (timer : Nat)
  | send (timer : Nat)
  | cancel
  | takeDone | takeNotify | takeToken
  | stop | drain | arm
  | cleanup | cleaned
  | quit
deriving DecidableEq, Repr

namespace State

/-- `debounceTimer.Stop()`, when there is a timer. -/
def stopTimer (s : State) : List Timer :=
  match s.debounceTimer with
  | none => s.timers
  | some timer => s.timers.modify timer Timer.stop

def step (s : State) : Label → Option State
  | .notify => some { s with notifyCh := true, owed := true }
  | .expire timer =>
      if s.timers[timer]? = some .armed then
        some { s with timers := s.timers.set timer .firing }
      else
        none
  | .send timer =>
      if s.timers[timer]? = some .firing then
        some { s with timers := s.timers.set timer .fired, debounceCh := true }
      else
        none
  | .cancel => some { s with cancelled := true }
  | .takeDone =>
      if s.pc = .selecting ∧ s.cancelled = true then
        some { s with pc := .cancelled }
      else
        none
  | .takeNotify =>
      if s.pc = .selecting ∧ s.notifyCh = true then
        some { s with pc := .notified, notifyCh := false }
      else
        none
  | .takeToken =>
      if s.pc = .selecting ∧ s.debounceCh = true then
        some { s with pc := .elapsed, debounceCh := false }
      else
        none
  | .stop =>
      if s.pc = .notified then
        -- without an earlier timer there is nothing to stop and nothing to drain
        some { s with
          timers := s.stopTimer
          pc := if s.debounceTimer = none then .arming else .draining }
      else
        none
  | .drain =>
      if s.pc = .draining then some { s with pc := .arming, debounceCh := false } else none
  | .arm =>
      if s.pc = .arming then
        some { s with
          timers := s.timers ++ [.armed]
          debounceTimer := some s.timers.length
          pc := .selecting }
      else
        none
  | .cleanup =>
      if s.pc = .elapsed then some { s with pc := .cleaning, owed := false } else none
  | .cleaned => if s.pc = .cleaning then some { s with pc := .selecting } else none
  | .quit =>
      if s.pc = .cancelled then
        some { s with timers := s.stopTimer, pc := .returned }
      else
        none

def new : State where
  notifyCh := false
  debounceCh := false
  timers := []
  debounceTimer := none
  pc := .selecting
  cancelled := false
  owed := false

def machine : Machine State Label where
  initial s := s = new
  step := step

/-- Something that leads to a `Cleanup`: a notification, a timer, a token, or `Run` on its way
from one of these to the next.
-/
def Promised (s : State) : Prop :=
  s.notifyCh = true
    ∨ (∃ timer ∈ s.timers, timer.Live)
    ∨ s.debounceCh = true
    ∨ s.pc.Between

/-- `Run` leaves its loop only for a cancelled context, and until then every request that is
owed a cleanup is on its way.
-/
structure Kept (s : State) : Prop where
  leaves : s.pc = .cancelled ∨ s.pc = .returned → s.cancelled = true
  promised : s.cancelled = false → s.owed = true → s.Promised

variable {s : State}

theorem Promised.of_timer {index : Nat} {timer : Timer} (found : s.timers[index]? = some timer)
    (live : timer.Live)
    : s.Promised :=
  Or.inr (Or.inl ⟨timer, List.mem_of_getElem? found, live⟩)

/-- A step keeps every request on its way: each one that takes away a notification, a timer or
a token leaves the next thing behind.
-/
theorem Kept.step {s' : State} {label : Label} (kept : s.Kept) (taken : s.step label = some s')
    : s'.Kept := by
  cases label with
  | notify =>
      obtain rfl := Option.some.inj taken
      exact ⟨kept.leaves, fun _ _ => Or.inl rfl⟩
  | expire timer =>
      obtain ⟨armed, rfl⟩ := Option.ite_some_none_eq_some.mp taken
      obtain ⟨inside, _⟩ := List.getElem?_eq_some_iff.mp armed
      have firing : (s.timers.set timer .firing)[timer]? = some Timer.firing :=
        List.getElem?_set_self inside
      exact ⟨kept.leaves, fun _ _ => .of_timer firing (Or.inr rfl)⟩
  | send timer =>
      obtain ⟨_, rfl⟩ := Option.ite_some_none_eq_some.mp taken
      exact ⟨kept.leaves, fun _ _ => Or.inr (Or.inr (Or.inl rfl))⟩
  | cancel =>
      obtain rfl := Option.some.inj taken
      exact ⟨fun _ => rfl, nofun⟩
  | takeDone =>
      obtain ⟨⟨_, done⟩, rfl⟩ := Option.ite_some_none_eq_some.mp taken
      refine ⟨fun _ => done, fun running => ?_⟩
      cases done.symm.trans running
  | takeNotify | takeToken =>
      obtain ⟨_, rfl⟩ := Option.ite_some_none_eq_some.mp taken
      exact ⟨nofun, fun _ _ => Or.inr (Or.inr (Or.inr trivial))⟩
  | stop =>
      obtain ⟨_, rfl⟩ := Option.ite_some_none_eq_some.mp taken
      -- both targets of the step lie before the arming
      by_cases first : s.debounceTimer = none
      · exact ⟨by simp [first], fun _ _ => Or.inr (Or.inr (Or.inr (by simp [first, Pc.Between])))⟩
      · exact ⟨by simp [first], fun _ _ => Or.inr (Or.inr (Or.inr (by simp [first, Pc.Between])))⟩
  | drain =>
      obtain ⟨_, rfl⟩ := Option.ite_some_none_eq_some.mp taken
      exact ⟨nofun, fun _ _ => Or.inr (Or.inr (Or.inr trivial))⟩
  | arm =>
      obtain ⟨_, rfl⟩ := Option.ite_some_none_eq_some.mp taken
      refine ⟨nofun, fun _ _ => Or.inr (Or.inl ⟨.armed, ?_, Or.inl rfl⟩)⟩
      exact List.mem_append_right _ List.mem_cons_self
  | cleanup =>
      obtain ⟨_, rfl⟩ := Option.ite_some_none_eq_some.mp taken
      exact ⟨nofun, nofun⟩
  | cleaned =>
      obtain ⟨cleaning, rfl⟩ := Option.ite_some_none_eq_some.mp taken
      refine ⟨nofun, fun running owed => ?_⟩
      rcases kept.promised running owed with pending | timer | token | between
      · exact Or.inl pending
      · exact Or.inr (Or.inl timer)
      · exact Or.inr (Or.inr (Or.inl token))
      · rw [cleaning] at between
        exact between.elim
  | quit =>
      obtain ⟨leaving, rfl⟩ := Option.ite_some_none_eq_some.mp taken
      have done := kept.leaves (Or.inl leaving)
      refine ⟨fun _ => done, fun running => ?_⟩
      cases done.symm.trans running

theorem kept_inductive : machine.Inductive Machine.anyStep Kept where
  start s initial := by
    obtain rfl := initial
    exact ⟨nofun, nofun⟩
  keeps _ _ _ kept _ taken := kept.step taken

/-- Debouncing never loses a request: while `Run` has not been cancelled, a `Notify` after the
start of the latest `Cleanup` is pending, is held by a timer, is a token, or is in the hands
of `Run`.
-/
theorem notify_never_lost {s : State} (reach : machine.Reachable Machine.anyStep s)
    (running : s.cancelled = false) (owed : s.owed = true)
    : s.Promised :=
  (kept_inductive.reachable reach).promised running owed

/-- A timer that fires while it is being replaced: `Run` stops it too late and drains before
its goroutine sends, so that the token arrives beside the new timer.
-/
def lateTimer : List Label :=
  [.notify, .takeNotify, .stop, .arm, .expire 0, .notify, .takeNotify, .stop, .drain, .send 0,
    .arm]

def lateToken : State where
  notifyCh := false
  debounceCh := true
  timers := [.fired, .armed]
  debounceTimer := some 1
  pc := .selecting
  cancelled := false
  owed := true

theorem lateToken_reachable : machine.Reachable Machine.anyStep lateToken :=
  ⟨new, lateTimer, rfl, Machine.exec_run rfl⟩

theorem lateToken_not_lost
    : machine.Reachable Machine.anyStep lateToken ∧ lateToken.Promised :=
  ⟨lateToken_reachable, notify_never_lost lateToken_reachable rfl rfl⟩

def Serving (s : State) (label : Label) : Prop :=
  s.owed = true ∧ label ≠ .notify ∧ label ≠ .cancel

def waiting (s : State) : Nat :=
  if s.debounceCh = true then 2
  else if Timer.firing ∈ s.timers then 3
  else if Timer.armed ∈ s.timers then 4
  else 8

def distance (s : State) : Nat :=
  match s.pc with
  | .elapsed => 1
  | .selecting => s.waiting
  | .arming => 5
  | .draining => 6
  | .notified => 7
  | .cleaning => s.waiting + 1
  | .cancelled | .returned => 0

theorem waiting_of_token {s : State} (token : s.debounceCh = true) : s.waiting = 2 := by
  simp [waiting, token]

theorem waiting_le_of_firing (firing : Timer.firing ∈ s.timers)
    : s.waiting ≤ 3 := by
  unfold waiting
  split
  · omega
  · exact Nat.le_refl 3

theorem waiting_le_of_armed (armed : Timer.armed ∈ s.timers)
    : s.waiting ≤ 4 := by
  unfold waiting
  split
  · omega
  · split
    · omega
    · exact Nat.le_refl 4

/-- At its select, `Run` takes the token, or a timer moves on towards it, or `Run` takes the
notification.
-/
theorem exists_closer_of_selecting (promised : s.Promised) (selecting : s.pc = .selecting)
    : ∃ label s', label ≠ .notify ∧ label ≠ .cancel ∧ s.step label = some s'
        ∧ s'.distance < s.waiting := by
  by_cases token : s.debounceCh = true
  · refine ⟨.takeToken, _, nofun, nofun, if_pos ⟨selecting, token⟩, ?_⟩
    rw [waiting_of_token token]
    exact Nat.one_lt_two
  by_cases firing : Timer.firing ∈ s.timers
  · obtain ⟨timer, found⟩ := List.mem_iff_getElem?.mp firing
    refine ⟨.send timer, _, nofun, nofun, if_pos found, ?_⟩
    have now : s.waiting = 3 := by simp [waiting, token, firing]
    rw [now, distance, selecting]
    exact Nat.lt_succ_of_le (Nat.le_of_eq (waiting_of_token rfl))
  by_cases armed : Timer.armed ∈ s.timers
  · obtain ⟨timer, found⟩ := List.mem_iff_getElem?.mp armed
    obtain ⟨inside, _⟩ := List.getElem?_eq_some_iff.mp found
    refine ⟨.expire timer, _, nofun, nofun, if_pos found, ?_⟩
    have now : s.waiting = 4 := by simp [waiting, token, firing, armed]
    rw [now, distance, selecting]
    exact Nat.lt_succ_of_le (waiting_le_of_firing (List.mem_set inside .firing))
  · have pending : s.notifyCh = true := by
      rcases promised with pending | ⟨timer, member, rfl | rfl⟩ | holds | between
      · exact pending
      · exact (armed member).elim
      · exact (firing member).elim
      · exact (token holds).elim
      · rw [selecting] at between
        exact between.elim
    refine ⟨.takeNotify, _, nofun, nofun, if_pos ⟨selecting, pending⟩, ?_⟩
    have now : s.waiting = 8 := by simp [waiting, token, firing, armed]
    rw [now]
    exact Nat.lt_succ_self 7

theorem exists_closer (kept : s.Kept) (running : s.cancelled = false) (owed : s.owed = true)
    : ∃ label s', s.Serving label ∧ s.step label = some s'
        ∧ (s'.owed = false ∨ s'.distance < s.distance) := by
  cases here : s.pc with
  | selecting =>
      obtain ⟨label, s', quiet, calm, taken, closer⟩ :=
        exists_closer_of_selecting (kept.promised running owed) here
      refine ⟨label, s', ⟨owed, quiet, calm⟩, taken, Or.inr ?_⟩
      rw [distance.eq_def s, here]
      exact closer
  | notified =>
      refine ⟨.stop, _, ⟨owed, nofun, nofun⟩, if_pos here, Or.inr ?_⟩
      by_cases first : s.debounceTimer = none
      · simp [distance, here, first]
      · simp [distance, here, first]
  | draining =>
      refine ⟨.drain, _, ⟨owed, nofun, nofun⟩, if_pos here, Or.inr ?_⟩
      simp [distance, here]
  | arming =>
      refine ⟨.arm, _, ⟨owed, nofun, nofun⟩, if_pos here, Or.inr ?_⟩
      rw [distance.eq_def s, here]
      refine Nat.lt_succ_of_le (waiting_le_of_armed ?_)
      exact List.mem_append_right _ List.mem_cons_self
  | elapsed => exact ⟨.cleanup, _, ⟨owed, nofun, nofun⟩, if_pos here, Or.inl rfl⟩
  | cleaning =>
      refine ⟨.cleaned, _, ⟨owed, nofun, nofun⟩, if_pos here, Or.inr ?_⟩
      rw [distance.eq_def s, here]
      exact Nat.lt_succ_self _
  | cancelled | returned =>
      have left := kept.leaves (by simp [here])
      cases left.symm.trans running

theorem step_serving {s' : State} {label : Label} (serving : s.Serving label)
    (taken : s.step label = some s')
    : s'.cancelled = s.cancelled ∧ (s'.owed = true ∨ s'.owed = false ∧ s'.pc = .cleaning) := by
  obtain ⟨owed, quiet, calm⟩ := serving
  cases label with
  | notify => exact (quiet rfl).elim
  | cancel => exact (calm rfl).elim
  | cleanup =>
      obtain ⟨_, rfl⟩ := Option.ite_some_none_eq_some.mp taken
      exact ⟨rfl, Or.inr ⟨rfl, rfl⟩⟩
  | expire | send | takeDone | takeNotify | takeToken | stop | drain | arm | cleaned | quit =>
      obtain ⟨_, rfl⟩ := Option.ite_some_none_eq_some.mp taken
      exact ⟨rfl, Or.inl owed⟩

/-- From every state in which a cleanup is owed and `Run` has not been cancelled, the steps of
`Run` and of the timers alone can start it.
-/
theorem owed_cleanup_starts (reach : machine.Reachable Machine.anyStep s)
    (running : s.cancelled = false) (owed : s.owed = true)
    : ∃ labels s', machine.Run Serving s labels s' ∧ s'.owed = false ∧ s'.pc = .cleaning := by
  let invariant (s : State) : Prop :=
    s.Kept ∧ s.cancelled = false ∧ (s.owed = true ∨ s.owed = false ∧ s.pc = .cleaning)
  have keeps (s : State) (label : Label) (s' : State) (holds : invariant s)
      (serving : s.Serving label) (taken : machine.step s label = some s')
      : invariant s' := by
    obtain ⟨same, settled⟩ := step_serving serving taken
    exact ⟨holds.1.step taken, same.trans holds.2.1, settled⟩
  refine Machine.exists_run_to (fun s => if s.owed = true then s.distance + 1 else 0) keeps ?_
    ⟨kept_inductive.reachable reach, running, Or.inl owed⟩
  intro s holds unsettled
  have owed := holds.2.2.resolve_right unsettled
  obtain ⟨label, s', serving, taken, closer⟩ := exists_closer holds.1 holds.2.1 owed
  refine ⟨label, s', serving, taken, ?_⟩
  rw [if_pos owed]
  rcases closer with settled | closer
  · simp [settled]
  · split
    · exact Nat.succ_lt_succ closer
    · exact Nat.succ_pos _

theorem lateToken_cleanup_starts
    : ∃ labels s, machine.Run Serving lateToken labels s ∧ s.owed = false ∧ s.pc = .cleaning :=
  owed_cleanup_starts lateToken_reachable rfl rfl

end State

end GoREgo.Janitor.Debounce
