import GoREgo.Execution.PersistentTurns

/-! `Shutdown` against `Execute` calls that are in flight. Every process that runs is in the
manager's map, so `Shutdown` leaves none; what runs later was started by a call that lost its
worker, or that had not asked for one yet.
-/

namespace GoREgo.Persistent

variable {Cmd : Type}

namespace Manager

variable {s s' : Manager Cmd} {w : Nat} {p p' : ManagedWorker Cmd} {key : String}

def Mapped (s : Manager Cmd) : Prop :=
  ∀ w p, s.processes[w]? = some p → p.running = true →
    s.workers p.key = some w ∧ p.processState = none

theorem Mapped.put (mapped : s.Mapped) (managed : s.processes[w]? = some p)
    (key : p'.key = p.key)
    (runs : p'.running = true → p.running = true ∧ p'.processState = p.processState)
    : (s.put w p').Mapped := by
  intro other found shown running
  rcases Lib.getElem?_set_cases shown with ⟨rfl, rfl⟩ | ⟨-, before⟩
  · obtain ⟨ran, state⟩ := runs running
    rw [key, state]
    exact mapped other p managed ran
  · exact mapped other found before running

theorem Mapped.drop (mapped : s.Mapped) {ending : ManagedWorker Cmd → ManagedWorker Cmd}
    (ends : ∀ w p, s.workers key = some w → s.processes[w]? = some p →
      (ending p).running = false)
    : (s.drop key ending).Mapped := by
  intro other found shown running
  rw [drop_workers]
  unfold Manager.drop at shown
  split at shown
  next absent =>
    obtain ⟨current, waited⟩ := mapped other found shown running
    have elsewhere : found.key ≠ key := by
      rintro rfl
      rw [absent] at current
      cases current
    exact ⟨by rw [Function.update_of_ne elsewhere, current], waited⟩
  next w held =>
    rw [List.getElem?_modify] at shown
    obtain ⟨before, managed, rfl⟩ := Option.map_eq_some_iff.mp shown
    by_cases same : w = other
    · subst same
      simp [ends w before held managed] at running
    · simp only [same, if_false] at running ⊢
      obtain ⟨current, waited⟩ := mapped other before managed running
      have elsewhere : before.key ≠ key := by
        rintro rfl
        exact same (Option.some.inj (held.symm.trans current))
      exact ⟨by rw [Function.update_of_ne elsewhere, current], waited⟩

theorem Mapped.startWorker (mapped : s.Mapped) (free : s.workers key = none) (cmd : Cmd)
    : (s.startWorker key cmd).Mapped := by
  intro other found shown running
  rcases Lib.getElem?_snoc_cases shown with ⟨rfl, rfl⟩ | ⟨-, before⟩
  · exact ⟨Function.update_self .., rfl⟩
  · obtain ⟨current, waited⟩ := mapped other found before running
    have elsewhere : found.key ≠ key := by
      rintro rfl
      rw [free] at current
      cases current
    exact ⟨by simpa [Manager.startWorker, Function.update_of_ne elsewhere] using current, waited⟩

theorem Mapped.ended_of_absent (mapped : s.Mapped) (absent : s.existing key = none)
    (held : s.workers key = some w) (managed : s.processes[w]? = some p)
    : p.close.running = false := by
  by_contra running
  have waited := (mapped w p managed (Bool.not_eq_false _ ▸ running)).2
  simp [existing, held, managed, waited] at absent

theorem Mapped.shutdown_stops (mapped : s.Mapped) (member : p ∈ s.shutdown.processes)
    : p.running = false := by
  obtain ⟨w, shown⟩ := List.getElem?_of_mem member
  obtain ⟨before, managed, rfl⟩ := Option.map_eq_some_iff.mp (List.getElem?_mapIdx ▸ shown)
  split
  next => rfl
  next absent =>
    by_contra running
    exact absent (mapped w before managed (Bool.not_eq_false _ ▸ running)).1

theorem mapped_inductive
    : (machine : Lib.Machine (Manager Cmd) (Label Cmd)).Inductive Lib.Machine.anyStep Mapped where
  start s initial := by
    obtain ⟨_, _, none_, _, _⟩ := initial
    intro w p managed
    rw [none_] at managed
    cases managed
  keeps s label s' mapped _ taken := by
    cases effect_of_step taken with
    | execute | cancel _ | found _ _ _ | registered => exact mapped
    | created _ _ absent _ =>
        have dropped := mapped.drop (fun w p held managed =>
          mapped.ended_of_absent absent held managed)
        exact dropped.startWorker (by simp) _
    | refused _ _ absent _ =>
        exact mapped.drop (fun w p held managed => mapped.ended_of_absent absent held managed)
    | locked _ _ managed _ | written _ _ managed _ | unwritten _ _ managed _
    | gaveUp _ _ managed _ | received _ _ managed | unreceived _ _ managed
    | read managed _ _ _ _ | unread managed _ _ _ | answered managed _ _ =>
        exact mapped.put managed rfl (fun running => ⟨running, rfl⟩)
    | restarted _ _ _ =>
        refine Mapped.startWorker ?_ (by simp) _
        exact mapped.drop (fun _ _ _ _ => rfl)
    | unrestarted _ _ _ => exact mapped.drop (fun _ _ _ _ => rfl)
    | died managed _ => exact mapped.put managed rfl nofun
    | shutdown =>
        intro w p shown running
        rw [mapped.shutdown_stops (List.mem_of_getElem? shown)] at running
        cases running

end Manager

/-- A call that starts no process any more, whatever becomes of the workers: it has returned, it
has made its restart, it has its answer in hand, or it has no worker and no command.
-/
def Call.settled (call : Call Cmd) : Bool :=
  match call.pc with
  | .returned _ => true
  | .locking _ .retry | .writing _ .retry | .waiting _ .retry _ => true
  | .waiting _ .first (some (some _)) => true
  | .getOrCreate => call.cmd.isNone
  | _ => false

def Pc.waitsFirst : Pc → Bool
  | .waiting _ .first _ => true
  | _ => false

namespace Manager

variable {s s' : Manager Cmd} {c : Nat} {call : Call Cmd} {pc : Pc}

/-- No `Execute` begins any more. -/
def InFlight (_ : Manager Cmd) : Label Cmd → Prop
  | .execute _ _ _ => False
  | _ => True

/-- No `Execute` begins, and none gives up its first request because its context is done. -/
def Remaining (s : Manager Cmd) : Label Cmd → Prop
  | .execute _ _ _ => False
  | .call c .contextDone => (s.pcOf c).waitsFirst = false
  | _ => True

structure Down (s : Manager Cmd) : Prop where
  workers : ∀ key, s.workers key = none
  stopped : ∀ p ∈ s.processes, p.running = false
  settled : ∀ call ∈ s.calls, call.settled = true

namespace Down

theorem go (down : s.Down) (settled : Call.settled { call with pc } = true)
    : (s.go c call pc).Down where
  workers := down.workers
  stopped := down.stopped
  settled other member := by
    rcases List.mem_or_eq_of_mem_set member with before | rfl
    · exact down.settled other before
    · exact settled

theorem drop_eq (down : s.Down) (key : String)
    (ending : ManagedWorker Cmd → ManagedWorker Cmd)
    : s.drop key ending = s := by
  simp [Manager.drop, down.workers key]

theorem called (down : s.Down) (called : s.calls[c]? = some call) : call.settled = true :=
  down.settled call (List.mem_of_getElem? called)

theorem managed {w : Nat} {p : ManagedWorker Cmd} (down : s.Down)
    (managed : s.processes[w]? = some p)
    : p.running = false :=
  down.stopped p (List.mem_of_getElem? managed)

theorem putGo {w : Nat} {p p' : ManagedWorker Cmd} (down : s.Down)
    (managed : s.processes[w]? = some p) (runs : p'.running = p.running)
    (settled : Call.settled { call with pc } = true)
    : ((s.put w p').go c call pc).Down := by
  refine Down.go ⟨down.workers, fun other member => ?_, down.settled⟩ settled
  rcases List.mem_or_eq_of_mem_set member with before | rfl
  · exact down.stopped other before
  · exact runs.trans (down.managed managed)

end Down

theorem retry_of_settled {w : Nat} {attempt : Attempt} (settled : call.settled = true)
    (at_ : call.pc = .locking w attempt ∨ call.pc = .writing w attempt
      ∨ call.pc = .waiting w attempt (some none))
    : attempt = .retry := by
  cases attempt with
  | retry => rfl
  | first => rcases at_ with at_ | at_ | at_ <;> simp [Call.settled, at_] at settled

theorem settled_deliver {w : Nat} {result : Option Answer} (settled : call.settled = true)
    : Call.settled { call with pc := call.pc.deliver w result } = true := by
  unfold Pc.deliver
  split
  next w' attempt waits =>
    cases attempt with
    | first => simp [Call.settled, waits] at settled
    | retry => split <;> rfl
  next => exact settled

/-- After `Shutdown` the calls that are left start no process. -/
theorem Down.step (down : s.Down) {label : Label Cmd} (allowed : Remaining s label)
    (taken : s.step label = some s')
    : s'.Down := by
  cases effect_of_step taken with
  | execute => exact absurd allowed not_false
  | cancel called =>
      have settled := down.called called
      refine ⟨down.workers, down.stopped, fun other member => ?_⟩
      rcases List.mem_or_eq_of_mem_set member with before | rfl
      · exact down.settled other before
      · exact settled
  | found _ _ there => simp [existing, down.workers] at there
  | created called asks _ command =>
      have settled := down.called called
      simp [Call.settled, asks, command] at settled
  | refused _ _ _ _ =>
      rw [down.drop_eq]
      exact down.go rfl
  | locked called wants managed _ =>
      obtain rfl := retry_of_settled (down.called called) (.inl wants)
      exact down.putGo managed rfl rfl
  | written _ _ managed serving =>
      simp [ManagedWorker.serving, down.managed managed] at serving
  | unwritten called holds managed _ =>
      obtain rfl := retry_of_settled (down.called called) (.inr (.inl holds))
      exact down.putGo managed rfl rfl
  | @gaveUp c call _ attempt _ _ called waits managed _ =>
      have later : (s.pcOf c).waitsFirst = false := allowed
      rw [pcOf_of_called called, waits] at later
      cases attempt with
      | first => cases later
      | retry => exact down.putGo managed rfl rfl
  | received _ _ managed => exact down.putGo managed rfl rfl
  | unreceived called waits managed =>
      obtain rfl := retry_of_settled (down.called called) (.inr (.inr waits))
      exact down.putGo managed rfl rfl
  | restarted called asks _ | unrestarted called asks _ =>
      have settled := down.called called
      simp [Call.settled, asks] at settled
  | read managed called _ _ _ | unread managed called _ _ =>
      exact down.putGo managed rfl (settled_deliver (down.called called))
  | answered managed running _ | died managed running =>
      rw [down.managed managed] at running
      cases running
  | registered => exact ⟨down.workers, down.stopped, down.settled⟩
  | shutdown =>
      refine ⟨fun _ => rfl, fun p member => ?_, down.settled⟩
      obtain ⟨w, shown⟩ := List.getElem?_of_mem member
      obtain ⟨before, managed, rfl⟩ :=
        Option.map_eq_some_iff.mp (List.getElem?_mapIdx ▸ shown)
      simp [down.workers, down.managed managed]

/-- `Shutdown` is final when every call in flight is settled: in every state that the remaining
steps reach from there, no process runs.
-/
theorem shutdown_final (reached : machine.Reachable Lib.Machine.anyStep s)
    (settled : ∀ call ∈ s.calls, call.settled = true) {labels : List (Label Cmd)}
    (run : machine.Run Remaining s.shutdown labels s')
    : ∀ p ∈ s'.processes, p.running = false := by
  have mapped := mapped_inductive.reachable reached
  have down : s.shutdown.Down :=
    ⟨fun _ => rfl, fun p member => mapped.shutdown_stops member, settled⟩
  have kept : s'.Down :=
    run.preserves (fun s label s' down allowed taken => down.step allowed taken) down
  exact kept.stopped

instance (s : Manager Cmd) (label : Label Cmd) : Decidable (InFlight s label) :=
  match label with
  | .execute .. => inferInstanceAs (Decidable False)
  | .call .. | .read .. | .answer .. | .die _ | .setRestartCommand .. | .shutdown =>
      inferInstanceAs (Decidable True)

instance (s : Manager Cmd) (label : Label Cmd) : Decidable (Remaining s label) :=
  match label with
  | .execute .. => inferInstanceAs (Decidable False)
  | .call _ .contextDone => inferInstanceAs (Decidable (_ = _))
  | .call _ .cancel | .call _ (.getOrCreate _) | .call _ .lock | .call _ .write
  | .call _ .receive | .call _ (.restart _) | .read .. | .answer .. | .die _
  | .setRestartCommand .. | .shutdown => inferInstanceAs (Decidable True)

def quiet (s : Manager Cmd) : Bool :=
  s.calls.all (fun call =>
    match call.pc with
    | .returned _ => true
    | _ => false)

/-- One call is on its restarted worker, another one has its answer. -/
def settledLabels : List (Label Unit) :=
  [.execute "javac" (some ()) (requestFor "A"), .execute "scalac" (some ()) (requestFor "B"),
    .call 0 (.getOrCreate true), .call 0 .lock, .call 0 .write, .die 0, .read 0 0,
    .call 0 .receive, .call 0 (.restart true), .call 0 .lock, .call 0 .write,
    .call 1 (.getOrCreate true), .call 1 .lock, .call 1 .write,
    .answer 2 (responseWith "b"), .read 2 1]

/-- Both calls return and no process is left. -/
theorem settled_shutdown
    : ∃ s s', machine.Run Lib.Machine.anyStep fresh settledLabels s
        ∧ machine.Run Remaining s.shutdown [.read 1 0, .call 0 .receive, .call 1 .receive] s'
        ∧ s'.quiet = true
        ∧ ∀ p ∈ s'.processes, p.running = false := by
  obtain ⟨s, run, tested⟩ := Lib.Machine.exists_run_of_exec machine fresh settledLabels
    (fun s => s.calls.all Call.settled
      && (machine.execIf Remaining s.shutdown
        [.read 1 0, .call 0 .receive, .call 1 .receive]).any quiet) (by decide)
  obtain ⟨settled, later⟩ := Bool.and_eq_true_iff.mp tested
  obtain ⟨s', rest, returned⟩ := Lib.Machine.exists_run_of_execIf machine Remaining s.shutdown
    _ quiet later
  refine ⟨s, s', run, rest, returned, ?_⟩
  exact shutdown_final ⟨fresh, _, ⟨rfl, rfl, rfl, rfl, rfl⟩, run⟩ (List.all_eq_true.mp settled)
    rest

def waitingLabels : List (Label Unit) :=
  [.execute "javac" (some ()) (requestFor "A"), .call 0 (.getOrCreate true), .call 0 .lock,
    .call 0 .write]

/-- The call takes the killed worker for a crashed one and restarts it. -/
def restartLabels : List (Label Unit) :=
  [.read 0 0, .call 0 .receive, .call 0 (.restart true), .call 0 .lock, .call 0 .write,
    .answer 1 (responseWith "a"), .read 1 0, .call 0 .receive]

/-- The process that a call in flight starts after `Shutdown` is alive when all have returned. -/
theorem restart_outlives_shutdown
    : ∃ s s', machine.Run Lib.Machine.anyStep fresh waitingLabels s
        ∧ machine.Run InFlight s.shutdown restartLabels s'
        ∧ s'.quiet = true
        ∧ ∃ p ∈ s'.processes, p.running = true := by
  obtain ⟨s, run, tested⟩ := Lib.Machine.exists_run_of_exec machine fresh waitingLabels
    (fun s => (machine.execIf InFlight s.shutdown restartLabels).any
      (fun s' => s'.quiet && s'.processes.any ManagedWorker.running)) (by decide)
  obtain ⟨s', rest, alive⟩ := Lib.Machine.exists_run_of_execIf machine InFlight s.shutdown
    restartLabels _ tested
  obtain ⟨returned, runs⟩ := Bool.and_eq_true_iff.mp alive
  exact ⟨s, s', run, rest, returned, List.any_eq_true.mp runs⟩

end Manager

end GoREgo.Persistent
