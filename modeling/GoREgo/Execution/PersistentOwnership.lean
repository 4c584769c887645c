import GoREgo.Execution.PersistentShutdown

/-! The worker table and its processes, with the manager's mutex held over several steps.
`getOrCreateWorker`, `restartWorker` and `Shutdown` close, kill, wait for and delete an entry one
after the other, while processes die and other calls use the workers that they already have.
-/

namespace GoREgo.Persistent.Locked

open Lib

/-- Who holds the manager's mutex: the call in `getOrCreateWorker`, the call in `restartWorker`,
or `Shutdown`.
-/
inductive Holder
  | getOrCreate (c : Nat)
  | restart (c : Nat)
  | shutdown
deriving DecidableEq

/-- What the holder does next, with its key and the worker that it has in hand. -/
inductive Stage
  | looking
  | closing (key : String) (w : Nat)
  | killing (key : String) (w : Nat)
  | waiting (key : String) (w : Nat)
  | deleting (key : String) (w : Nat)
  | starting (key : String)
deriving DecidableEq

/-- The manager, its mutex, and the processes that were sent a kill. -/
structure State (Cmd : Type) where
  table : Manager Cmd
  mu : Option (Holder × Stage)
  killed : List Nat

/-- Steps of calls, readers and processes, of who takes the mutex, and of who holds it. `pick` is
the entry that `Shutdown`'s loop visits next; `outcome` says whether a process starts, and whether
one that was waited for had exited by itself.
-/
inductive Event (Cmd : Type)
  | outside (label : Label Cmd)
  | lock (holder : Holder)
  | hold (pick : Nat) (outcome : Bool)

variable {Cmd : Type}

def permitted (mu : Option (Holder × Stage)) : Label Cmd → Bool
  | .call _ (.getOrCreate _) | .call _ (.restart _) | .shutdown => false
  | .setRestartCommand _ _ => mu.isNone
  | _ => true

def Holder.comes (s : Manager Cmd) : Holder → Bool
  | .getOrCreate c => (s.calls[c]?).any (fun call => call.pc matches .getOrCreate)
  | .restart c => (s.calls[c]?).any (fun call => call.pc matches .restarting _ _)
  | .shutdown => true

def Holder.returns (s : Manager Cmd) (got : Except StartError Nat)
    : Holder → Option (Manager Cmd)
  | .getOrCreate c =>
      (s.calls[c]?).map (fun call => s.obtained c call .first .getOrCreate got)
  | .restart c =>
      (s.calls[c]?).bind (fun call =>
        match call.pc with
        | .restarting _ err => some (s.obtained c call .retry (.restart err) got)
        | _ => none)
  | .shutdown => some s

/-- The command of the process to start: the one given to `Execute`, or the one for restarts. -/
def Holder.command (s : Manager Cmd) (key : String) : Holder → Option Cmd
  | .getOrCreate c => (s.calls[c]?).bind (·.cmd)
  | .restart _ => s.restart key
  | .shutdown => none

namespace State

def release (s : State Cmd) (holder : Holder) (table : Manager Cmd)
    (got : Except StartError Nat)
    : Option (State Cmd) :=
  (holder.returns table got).map (fun table => { s with table, mu := none })

/-- What becomes of the entry of a key, or of a key without one. -/
def found (s : State Cmd) (holder : Holder) (key : String) : State Cmd :=
  match s.table.workers key with
  | some w => { s with mu := some (holder, .closing key w) }
  | none => { s with mu := some (holder, .starting key) }

def looking (s : State Cmd) (pick : Nat) : Holder → Option (State Cmd)
  | .getOrCreate c =>
      (s.table.calls[c]?).bind (fun call =>
        match s.table.existing call.key with
        | some w => s.release (.getOrCreate c) s.table (.ok w)
        | none => some (s.found (.getOrCreate c) call.key))
  | .restart c => (s.table.calls[c]?).map (fun call => s.found (.restart c) call.key)
  | .shutdown =>
      match s.table.processes[pick]? with
      | some p =>
          if s.table.workers p.key = some pick then
            some { s with mu := some (.shutdown, .closing p.key pick) }
          else
            none
      | none =>
          -- The loop ends when no entry is left.
          if ∀ w < s.table.processes.length,
              (s.table.processes[w]?).all (fun p => s.table.workers p.key ≠ some w) then
            some { s with mu := none }
          else
            none

/-- `startWorker` and what its callers do with it. Nobody else has the new process before its
entry is written, so both are one step.
-/
def starting (s : State Cmd) (holder : Holder) (key : String) (starts : Bool)
    : Option (State Cmd) :=
  match holder.command s.table key with
  | none => s.release holder s.table (.error .noCommand)
  | some cmd =>
      if starts then
        s.release holder (s.table.startWorker key cmd) (.ok s.table.processes.length)
      else
        s.release holder s.table (.error .notStarted)

/-- The next step of the holder. `Wait` returns once the process is gone. -/
def hold (s : State Cmd) (holder : Holder) (pick : Nat) (outcome : Bool)
    : Stage → Option (State Cmd)
  | .looking => s.looking pick holder
  | .closing key w =>
      (s.table.processes[w]?).map (fun p =>
        { s with
          table := s.table.put w p.close
          mu := some (holder,
            match holder with
            | .getOrCreate _ => .deleting key w
            | _ => .killing key w) })
  | .killing key w =>
      some { s with killed := w :: s.killed, mu := some (holder, .waiting key w) }
  | .waiting key w =>
      (s.table.processes[w]?).bind (fun p =>
        if p.running then
          none
        else
          some
            { s with
              table := s.table.put w { p with processState := some outcome }
              mu := some (holder, .deleting key w) })
  | .deleting key _ =>
      some
        { s with
          table := s.table.drop key id
          mu := some (holder,
            match holder with
            | .shutdown => .looking
            | _ => .starting key) }
  | .starting key => s.starting holder key outcome

def step (s : State Cmd) : Event Cmd → Option (State Cmd)
  | .outside label =>
      if permitted s.mu label then
        (s.table.step label).map (fun table => { s with table })
      else
        none
  | .lock holder =>
      if s.mu = none ∧ holder.comes s.table then
        some { s with mu := some (holder, .looking) }
      else
        none
  | .hold pick outcome =>
      s.mu.bind (fun held => s.hold held.1 pick outcome held.2)

def machine : Machine (State Cmd) (Event Cmd) where
  initial s := Manager.machine.initial s.table ∧ s.mu = none ∧ s.killed = []
  step := step

end State

def Keyed (t : Manager Cmd) : Prop :=
  ∀ key w, t.workers key = some w → (t.processes.map ManagedWorker.key)[w]? = some key

theorem Keyed.put {t : Manager Cmd} {w : Nat} {p p' : ManagedWorker Cmd} (keyed : Keyed t)
    (managed : t.processes[w]? = some p) (key : p'.key = p.key)
    : Keyed (t.put w p') := by
  intro other v held
  rw [Manager.put, map_set_of_same _ managed key]
  exact keyed other v held

theorem Keyed.drop {t : Manager Cmd} (keyed : Keyed t) (key : String)
    : Keyed (t.drop key id) := by
  intro other v held
  have processes : (t.drop key id).processes = t.processes := by
    unfold Manager.drop
    split
    next => rfl
    next => exact List.modify_id ..
  rw [Manager.drop_workers, Function.update_apply] at held
  split at held
  next => cases held
  next => exact processes ▸ keyed other v held

theorem Keyed.startWorker {t : Manager Cmd} (keyed : Keyed t) (key : String) (cmd : Cmd)
    : Keyed (t.startWorker key cmd) := by
  intro other w held
  simp only [Manager.startWorker, Function.update_apply] at held
  rw [Manager.startWorker, List.map_append, List.map_singleton]
  split at held
  next same =>
    obtain rfl := Option.some.inj held
    rw [← List.length_map ManagedWorker.key, List.getElem?_concat_length, same]
  next => exact getElem?_snoc_of_some (keyed other w held)

/-- `t'` has the entries of `t` and its processes, of which some may have ended. -/
structure Quiet (t t' : Manager Cmd) : Prop where
  workers : t'.workers = t.workers
  keys : t'.processes.map ManagedWorker.key = t.processes.map ManagedWorker.key
  back : ∀ (w : Nat) (p' : ManagedWorker Cmd), t'.processes[w]? = some p' →
    ∃ p : ManagedWorker Cmd, t.processes[w]? = some p ∧ p'.key = p.key
      ∧ p'.processState = p.processState ∧ (p'.running = true → p.running = true)

namespace Quiet

variable {t t' : Manager Cmd} {w : Nat} {p p' : ManagedWorker Cmd}

theorem of_eq (workers : t'.workers = t.workers) (processes : t'.processes = t.processes)
    : Quiet t t' where
  workers := workers
  keys := by rw [processes]
  back _ p' shown := ⟨p', processes ▸ shown, rfl, rfl, id⟩

theorem put (managed : t.processes[w]? = some p) (workers : t'.workers = t.workers)
    (processes : t'.processes = t.processes.set w p') (key : p'.key = p.key)
    (state : p'.processState = p.processState) (runs : p'.running = true → p.running = true)
    : Quiet t t' where
  workers := workers
  keys := by rw [processes, map_set_of_same _ managed key]
  back other q shown := by
    rcases getElem?_set_cases (processes ▸ shown) with ⟨rfl, rfl⟩ | ⟨-, before⟩
    · exact ⟨p, managed, key, state, runs⟩
    · exact ⟨q, before, rfl, rfl, id⟩

theorem mapped (quiet : Quiet t t') (mapped : t.Mapped)
    : t'.Mapped := by
  intro w p' shown running
  obtain ⟨p, before, named, state, runs⟩ := quiet.back w p' shown
  rw [quiet.workers, named, state]
  exact mapped w p before (runs running)

theorem keyed (quiet : Quiet t t') (keyed : Keyed t)
    : Keyed t' := by
  rw [Keyed, quiet.workers, quiet.keys]
  exact keyed

/-- The steps beside the mutex leave the entries alone, and end processes at most. -/
theorem of_step {mu : Option (Holder × Stage)} {label : Label Cmd}
    (allowed : permitted mu label = true) (taken : t.step label = some t')
    : Quiet t t' := by
  cases Manager.effect_of_step taken with
  | execute | cancel _ | registered => exact .of_eq rfl rfl
  | found _ _ _ | created _ _ _ _ | refused _ _ _ _ | restarted _ _ _ | unrestarted _ _ _
  | shutdown => cases allowed
  | locked _ _ managed _ | written _ _ managed _ | unwritten _ _ managed _
  | gaveUp _ _ managed _ | received _ _ managed | unreceived _ _ managed
  | read managed _ _ _ _ | unread managed _ _ _ | answered managed _ _ =>
      exact .put managed rfl rfl rfl rfl id
  | died managed _ => exact .put managed rfl rfl rfl rfl nofun

end Quiet

namespace State

variable {s s' : State Cmd} {holder : Holder} {stage : Stage} {key : String} {w : Nat}

def Ended (s : State Cmd) (w : Nat) : Prop :=
  ∀ p : ManagedWorker Cmd, s.table.processes[w]? = some p → p.running = false
    ∧ (p.processState = some true ∨ w ∈ s.killed ∧ p.processState.isSome = true)

def Stands (s : State Cmd) (holder : Holder) : Stage → Prop
  | .looking => True
  | .closing key w => s.table.workers key = some w ∧ (∀ c, holder = .getOrCreate c → s.Ended w)
  | .killing key w => s.table.workers key = some w
  | .waiting key w => s.table.workers key = some w ∧ w ∈ s.killed
  | .deleting key w => s.table.workers key = some w ∧ s.Ended w
  | .starting key => s.table.workers key = none

structure Owned (s : State Cmd) : Prop where
  mapped : s.table.Mapped
  keyed : Keyed s.table
  stands : ∀ holder stage, s.mu = some (holder, stage) → s.Stands holder stage

structure Next (s s' : State Cmd) : Prop where
  owned : s'.Owned
  drops : ∀ key w, s.table.workers key = some w → s'.table.workers key = some w ∨ s.Ended w

theorem Ended.quiet (ended : s.Ended w) (quiet : Quiet s.table s'.table)
    (killed : s'.killed = s.killed)
    : s'.Ended w := by
  intro p' shown
  obtain ⟨p, before, -, state, runs⟩ := quiet.back w p' shown
  obtain ⟨stopped, known⟩ := ended p before
  rw [state, killed]
  exact ⟨Bool.eq_false_iff.mpr (fun running => by simp [runs running] at stopped), known⟩

theorem Stands.quiet (stands : s.Stands holder stage) (quiet : Quiet s.table s'.table)
    (killed : s'.killed = s.killed)
    : s'.Stands holder stage := by
  cases stage with
  | looking => trivial
  | closing key w =>
      exact ⟨quiet.workers ▸ stands.1, fun c same => (stands.2 c same).quiet quiet killed⟩
  | killing key w => exact (congrFun quiet.workers key).trans stands
  | waiting key w => exact ⟨quiet.workers ▸ stands.1, killed ▸ stands.2⟩
  | deleting key w => exact ⟨quiet.workers ▸ stands.1, stands.2.quiet quiet killed⟩
  | starting key => exact (congrFun quiet.workers key).trans stands

theorem Owned.quiet (owned : s.Owned) (quiet : Quiet s.table s'.table)
    (stands : ∀ holder stage, s'.mu = some (holder, stage) → s'.Stands holder stage)
    : s.Next s' where
  owned := ⟨quiet.mapped owned.mapped, quiet.keyed owned.keyed, stands⟩
  drops _ _ held := .inl (quiet.workers ▸ held)

theorem Owned.goes (owned : s.Owned) (stands : s.Stands holder stage)
    : s.Next { s with mu := some (holder, stage) } := by
  refine owned.quiet (.of_eq rfl rfl) ?_
  rintro _ _ ⟨⟩
  exact stands.quiet (.of_eq rfl rfl) rfl

theorem release_spec {table : Manager Cmd} {got : Except StartError Nat}
    (released : s.release holder table got = some s')
    : s'.mu = none ∧ Quiet table s'.table := by
  obtain ⟨table', returned, rfl⟩ := Option.map_eq_some_iff.mp released
  refine ⟨rfl, ?_⟩
  cases holder with
  | getOrCreate c =>
      obtain ⟨call, -, rfl⟩ := Option.map_eq_some_iff.mp returned
      cases got <;> exact .of_eq rfl rfl
  | restart c =>
      obtain ⟨call, -, went⟩ := Option.bind_eq_some_iff.mp returned
      split at went
      next =>
        obtain rfl := Option.some.inj went
        cases got <;> exact .of_eq rfl rfl
      next => cases went
  | shutdown =>
      obtain rfl := Option.some.inj returned
      exact .of_eq rfl rfl

theorem stands_of_free (free : s.mu = none) (holder : Holder) (stage : Stage)
    (held : s.mu = some (holder, stage))
    : s.Stands holder stage := by
  rw [free] at held
  cases held

theorem Owned.released (owned : s.Owned) {got : Except StartError Nat}
    (released : s.release holder s.table got = some s')
    : s.Next s' := by
  obtain ⟨free, quiet⟩ := release_spec released
  exact owned.quiet quiet (stands_of_free free)

theorem Owned.found (owned : s.Owned)
    (dead : ∀ w c, s.table.workers key = some w → holder = .getOrCreate c → s.Ended w)
    : s.Next (s.found holder key) := by
  unfold State.found
  split
  next w held =>
    have stands : s.Stands holder (.closing key w) := ⟨held, fun c => dead w c held⟩
    exact owned.goes stands
  next free =>
    have stands : s.Stands holder (.starting key) := free
    exact owned.goes stands

/-- The worker that `getOrCreateWorker` takes for dead has exited. -/
theorem Owned.ended_of_absent (owned : s.Owned) (absent : s.table.existing key = none)
    (held : s.table.workers key = some w)
    : s.Ended w := by
  intro p shown
  refine ⟨owned.mapped.ended_of_absent absent held shown, .inl ?_⟩
  by_contra other
  simp [Manager.existing, held, shown, other] at absent

theorem Owned.looking (owned : s.Owned) {pick : Nat} (taken : s.looking pick holder = some s')
    : s.Next s' := by
  cases holder with
  | getOrCreate c =>
      obtain ⟨call, -, went⟩ := Option.bind_eq_some_iff.mp taken
      split at went
      next => exact owned.released went
      next absent =>
        obtain rfl := Option.some.inj went
        exact owned.found (fun w c held _ => owned.ended_of_absent absent held)
  | restart c =>
      obtain ⟨call, -, rfl⟩ := Option.map_eq_some_iff.mp taken
      exact owned.found nofun
  | shutdown =>
      simp only [State.looking] at taken
      split at taken
      next p _ =>
        obtain ⟨held, went⟩ := Option.ite_none_right_eq_some.mp taken
        obtain rfl := Option.some.inj went
        have stands : s.Stands .shutdown (.closing p.key pick) := ⟨held, nofun⟩
        exact owned.goes stands
      next =>
        obtain ⟨-, went⟩ := Option.ite_none_right_eq_some.mp taken
        obtain rfl := Option.some.inj went
        exact owned.quiet (.of_eq rfl rfl) nofun

theorem Owned.starting (owned : s.Owned) (free : s.table.workers key = none) {starts : Bool}
    (taken : s.starting holder key starts = some s')
    : s.Next s' := by
  unfold State.starting at taken
  split at taken
  next => exact owned.released taken
  next cmd _ =>
    cases starts with
    | false => exact owned.released taken
    | true =>
        obtain ⟨unlocked, quiet⟩ := release_spec taken
        refine ⟨⟨quiet.mapped (owned.mapped.startWorker free cmd),
          quiet.keyed (owned.keyed.startWorker key cmd), stands_of_free unlocked⟩, fun other w held => .inl ?_⟩
        have elsewhere : other ≠ key := by
          rintro rfl
          rw [free] at held
          cases held
        rw [quiet.workers]
        exact (Function.update_of_ne elsewhere ..).trans held

theorem Owned.deleting (owned : s.Owned) (held : s.table.workers key = some w)
    (ended : s.Ended w) {stage : Stage} (next : stage = .looking ∨ stage = .starting key)
    : s.Next { s with table := s.table.drop key id, mu := some (holder, stage) } where
  owned :=
    { mapped := owned.mapped.drop (fun v p mapped shown =>
        (ended p (Option.some.inj (held.symm.trans mapped) ▸ shown)).1)
      keyed := owned.keyed.drop key
      stands := by
        rintro _ _ ⟨⟩
        rcases next with rfl | rfl
        · trivial
        · exact (congrFun (Manager.drop_workers ..) key).trans (Function.update_self ..) }
  drops other v mapped := by
    by_cases same : other = key
    · subst same
      obtain rfl := Option.some.inj (held.symm.trans mapped)
      exact .inr ended
    · exact .inl ((congrFun (Manager.drop_workers ..) other).trans
        ((Function.update_of_ne same ..).trans mapped))

theorem Owned.hold (owned : s.Owned) (at_ : s.mu = some (holder, stage)) {pick : Nat}
    {outcome : Bool} (taken : s.hold holder pick outcome stage = some s')
    : s.Next s' := by
  have stands := owned.stands holder stage at_
  cases stage with
  | looking => exact owned.looking taken
  | closing key w =>
      obtain ⟨p, managed, rfl⟩ := Option.map_eq_some_iff.mp taken
      have quiet : Quiet s.table (s.table.put w p.close) := .put managed rfl rfl rfl rfl id
      refine owned.quiet quiet ?_
      rintro _ _ ⟨⟩
      cases holder with
      | getOrCreate c => exact ⟨stands.1, (stands.2 c rfl).quiet quiet rfl⟩
      | restart _ | shutdown => exact stands.1
  | killing key w =>
      obtain rfl := Option.some.inj taken
      refine owned.quiet (.of_eq rfl rfl) ?_
      rintro _ _ ⟨⟩
      exact ⟨stands, List.mem_cons_self⟩
  | waiting key w =>
      obtain ⟨p, managed, went⟩ := Option.bind_eq_some_iff.mp taken
      split at went
      next => cases went
      next stopped =>
        obtain rfl := Option.some.inj went
        refine ⟨⟨owned.mapped.put managed rfl (fun running => absurd running stopped),
          owned.keyed.put managed rfl, ?_⟩, fun _ _ held => .inl held⟩
        rintro _ _ ⟨⟩
        refine ⟨stands.1, fun p' shown => ?_⟩
        obtain rfl := Option.some.inj ((getElem?_set_of_some managed).symm.trans shown)
        exact ⟨Bool.eq_false_iff.mpr stopped, .inr ⟨stands.2, rfl⟩⟩
  | deleting key w =>
      obtain rfl := Option.some.inj taken
      cases holder with
      | shutdown => exact owned.deleting stands.1 stands.2 (.inl rfl)
      | getOrCreate _ | restart _ => exact owned.deleting stands.1 stands.2 (.inr rfl)
  | starting key => exact owned.starting stands taken

theorem Owned.step (owned : s.Owned) {event : Event Cmd} (taken : s.step event = some s')
    : s.Next s' := by
  cases event with
  | outside label =>
      obtain ⟨allowed, went⟩ := Option.ite_none_right_eq_some.mp taken
      obtain ⟨table, moved, rfl⟩ := Option.map_eq_some_iff.mp went
      have quiet := Quiet.of_step allowed moved
      exact owned.quiet quiet
        (fun holder stage at_ => (owned.stands holder stage at_).quiet quiet rfl)
  | lock holder =>
      obtain ⟨-, went⟩ := Option.ite_none_right_eq_some.mp taken
      obtain rfl := Option.some.inj went
      have stands : s.Stands holder .looking := trivial
      exact owned.goes stands
  | hold pick outcome =>
      obtain ⟨⟨holder, stage⟩, at_, went⟩ := Option.bind_eq_some_iff.mp taken
      exact owned.hold at_ went

theorem owned_inductive
    : (machine : Machine (State Cmd) (Event Cmd)).Inductive Machine.anyStep Owned where
  start s initial := by
    obtain ⟨initial, free, _⟩ := initial
    refine ⟨Manager.mapped_inductive.start s.table initial, fun key w held => ?_,
      stands_of_free free⟩
    rw [initial.1] at held
    cases held
  keeps _ _ _ owned _ taken := (owned.step taken).owned

/-- The worker table owns its processes. In every reachable state in which the manager's mutex is
free, every process that runs is the process of exactly one entry, and no two of them have one
key; and whatever step drops an entry, its process has ended: it has exited, or it was killed and
waited for.
-/
theorem table_owns_processes
    (reach : (machine : Machine (State Cmd) (Event Cmd)).Reachable Machine.anyStep s)
    : (s.mu = none →
        (∀ (w : Nat) (p : ManagedWorker Cmd), s.table.processes[w]? = some p →
          p.running = true → ∃! key, s.table.workers key = some w)
        ∧ ∀ (w w' : Nat) (p p' : ManagedWorker Cmd), s.table.processes[w]? = some p →
          s.table.processes[w']? = some p' → p.running = true → p'.running = true →
          p.key = p'.key → w = w')
      ∧ ∀ event s' key w, s.step event = some s' → s.table.workers key = some w →
        s'.table.workers key ≠ some w →
          ∃ p : ManagedWorker Cmd, s.table.processes[w]? = some p ∧ p.running = false
            ∧ (p.processState = some true ∨ w ∈ s.killed ∧ p.processState.isSome = true) := by
  have owned := owned_inductive.reachable reach
  refine ⟨fun _ => ⟨fun w p shown running => ?_, ?_⟩, fun event s' key w taken held dropped => ?_⟩
  · refine ⟨p.key, (owned.mapped w p shown running).1, fun key held => ?_⟩
    have named := owned.keyed key w held
    rw [List.getElem?_map, shown] at named
    exact (Option.some.inj named).symm
  · intro w w' p p' shown shown' running running' same
    have second := (owned.mapped w' p' shown' running').1
    rw [← same, (owned.mapped w p shown running).1] at second
    exact Option.some.inj second
  · have named := owned.keyed key w held
    rw [List.getElem?_map] at named
    obtain ⟨p, shown, -⟩ := Option.map_eq_some_iff.mp named
    have ended := ((owned.step taken).drops key w held).resolve_left dropped
    exact ⟨p, shown, ended p shown⟩

def restartedWorker : List (Event Unit) :=
  [.outside (.execute "javac" (some ()) ⟨[], [], false⟩), .lock (.getOrCreate 0), .hold 0 true,
    .hold 0 true, .outside (.die 0), .outside (.call 0 .lock),
    .outside (.call 0 .write), .lock (.restart 0), .hold 0 true, .hold 0 true, .hold 0 true,
    .hold 0 true]

/-- The process of an entry about to be deleted has been killed and waited for. -/
theorem restartedWorker_ended
    : ∃ s : State Unit, machine.Reachable Machine.anyStep s
        ∧ (∃ s', s.step (.hold 0 true) = some s' ∧ s.table.workers "javac" = some 0
          ∧ s'.table.workers "javac" ≠ some 0)
        ∧ ∃ p : ManagedWorker Unit, s.table.processes[0]? = some p ∧ p.running = false
          ∧ (p.processState = some true ∨ 0 ∈ s.killed ∧ p.processState.isSome = true) := by
  obtain ⟨s, run, tested⟩ := Machine.exists_run_of_exec machine
    ⟨⟨fun _ => none, fun _ => none, [], [], []⟩, none, []⟩ restartedWorker
    (fun s => decide (s.table.workers "javac" = some 0
      ∧ s.mu = some (.restart 0, .deleting "javac" 0))) (by decide)
  obtain ⟨held, at_⟩ := of_decide_eq_true tested
  have reach : machine.Reachable Machine.anyStep s :=
    ⟨_, _, ⟨⟨rfl, rfl, rfl, rfl, rfl⟩, rfl, rfl⟩, run⟩
  have taken : s.step (.hold 0 true) = s.hold (.restart 0) 0 true (.deleting "javac" 0) := by
    rw [State.step, at_, Option.bind_some]
  have dropped : (s.table.drop "javac" id).workers "javac" ≠ some 0 := by
    rw [Manager.drop_workers, Function.update_self]
    nofun
  exact ⟨s, reach, ⟨_, taken, held, dropped⟩,
    (table_owns_processes reach).2 _ _ "javac" 0 taken held dropped⟩

end State

end GoREgo.Persistent.Locked
