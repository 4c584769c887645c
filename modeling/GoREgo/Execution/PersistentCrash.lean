import GoREgo.Execution.PersistentTurns

/-! One crash of a worker process. A call whose request fails restarts the worker of its key,
whichever that is by then, and has one more try. So the calls survive a crash when at most one
of them has the process that dies.
-/

namespace GoREgo.Persistent

variable {Cmd : Type}

namespace Manager

/-- Calls on one key with a command or a worker, contexts that stay, processes that start, and a
crash of the first process only.
-/
def OneCrash (key : String) (s : Manager Cmd) : Label Cmd → Prop
  | .execute key' cmd _ => key' = key ∧ (cmd.isSome = true ∨ s.processes ≠ [])
  | .call _ .cancel => False
  | .call _ (.getOrCreate starts) | .call _ (.restart starts) => starts = true
  | .die w => w = 0
  | .shutdown => False
  | _ => True

def users (s : Manager Cmd) (w : Nat) : List Nat :=
  (List.range s.calls.length).filter (fun c => (s.pcOf c).worker? = some w)

def Exclusive (s : Manager Cmd) : Label Cmd → Prop
  | .die w => ∀ c ∈ s.users w, ∀ d ∈ s.users w, c = d
  | .call c (.getOrCreate _) =>
      ∀ call ∈ s.calls[c]?, ∀ w ∈ s.workers call.key, ∀ p ∈ s.processes[w]?,
        p.running = true ∨ s.users w = []
  | _ => True

def Spared (key : String) (s : Manager Cmd) (label : Label Cmd) : Prop :=
  OneCrash key s label ∧ Exclusive s label

def runs (s : Manager Cmd) (w : Nat) : Bool :=
  (s.processes[w]?).elim false ManagedWorker.running

end Manager

def Pc.retries : Pc → Bool
  | .locking _ .retry | .writing _ .retry | .waiting _ .retry _ => true
  | _ => false

def Pc.failing : Pc → Bool
  | .waiting _ _ (some none) | .restarting _ _ => true
  | _ => false

def Pc.lost : Pc → Bool
  | .returned (.error _) => true
  | _ => false

namespace Manager

/-- Where a call can stand: it has the last worker, which is dead if the call failed and not the
first one if it tries again; it returns no error.
-/
structure Stands (s : Manager Cmd) (pc : Pc) : Prop where
  last : ∀ w, pc.worker? = some w → w + 1 = s.processes.length
  retry : pc.retries = true → pc.worker? ≠ some 0
  failing : pc.failing = true → ∀ w, pc.worker? = some w → s.runs w = false
  kept : pc.lost = false

/-- The map has the last worker, whose pipes are open and which has not been waited for; only the
first one can be dead, with one call at most; and every call stands well.
-/
structure Sound (key : String) (s : Manager Cmd) : Prop where
  table : s.workers key = if s.processes = [] then none else some (s.processes.length - 1)
  restartable : s.processes ≠ [] → (s.restart key).isSome = true
  current
    : ∀ (w : Nat) (p : ManagedWorker Cmd), s.processes[w]? = some p →
        w + 1 = s.processes.length →
        p.closed = false ∧ p.processState = none ∧ (w ≠ 0 → p.running = true)
  alone
    : ∀ w, s.runs w = false → ∀ c d, (s.pcOf c).worker? = some w →
        (s.pcOf d).worker? = some w → c = d
  stands : ∀ c, s.Stands (s.pcOf c)
  keyed
    : ∀ (c : Nat) (call : Call Cmd), s.calls[c]? = some call →
        call.key = key ∧ (call.cmd.isSome = true ∨ s.processes ≠ [])

variable {key : String} {s s' : Manager Cmd} {w c : Nat} {p p' : ManagedWorker Cmd}
  {call : Call Cmd} {pc : Pc}

theorem stands_of_idle (idle : pc.worker? = none) (kept : pc.lost = false) : s.Stands pc where
  last _ has := nomatch idle.symm.trans has
  retry _ has := nomatch idle.symm.trans has
  failing _ _ has := nomatch idle.symm.trans has
  kept := kept

theorem Stands.congr (stands : s.Stands pc)
    (length : s'.processes.length = s.processes.length)
    (dead : ∀ w, s.runs w = false → s'.runs w = false)
    : s'.Stands pc where
  last w has := by
    rw [length]
    exact stands.last w has
  retry := stands.retry
  failing fails w has := dead w (stands.failing fails w has)
  kept := stands.kept

theorem runs_of_managed (managed : s.processes[w]? = some p) : s.runs w = p.running := by
  rw [runs, managed]
  rfl

theorem Sound.go (sound : s.Sound key) (called : s.calls[c]? = some call) (stands : s.Stands pc)
    (gets
      : ∀ w, pc.worker? = some w → call.pc.worker? = some w ∨ s.runs w = true
          ∨ ∀ d, (s.pcOf d).worker? ≠ some w)
    : (s.go c call pc).Sound key where
  table := sound.table
  restartable := sound.restartable
  current := sound.current
  alone w dead d e has has' := by
    rw [pcOf_go called] at has has'
    have before := sound.alone w dead
    have own : ∀ d, d ≠ c → (s.pcOf d).worker? = some w → pc.worker? = some w → d = c := by
      intro d away used new
      rcases gets w new with same | running | unused
      · exact before d c used (by rw [pcOf_of_called called, same])
      · exact nomatch dead.symm.trans running
      · exact absurd used (unused d)
    rcases Lib.update_cases Pc.worker? has with ⟨rfl, new⟩ | ⟨away, used⟩ <;>
      rcases Lib.update_cases Pc.worker? has' with ⟨rfl, new'⟩ | ⟨away', used'⟩
    · rfl
    · exact (own e away' used' new).symm
    · exact own d away used new'
    · exact before d e used used'
  stands d := by
    rw [pcOf_go called]
    by_cases same : d = c
    · rw [same, Function.update_self]
      exact stands.congr rfl (fun _ => id)
    · rw [Function.update_of_ne same]
      exact (sound.stands d).congr rfl (fun _ => id)
  keyed d found shown := by
    rcases Lib.getElem?_set_cases shown with ⟨rfl, rfl⟩ | ⟨-, before⟩
    · exact sound.keyed _ call called
    · exact sound.keyed d found before

theorem Sound.put (sound : s.Sound key) (managed : s.processes[w]? = some p)
    (running : p'.running = p.running) (closed : p'.closed = p.closed)
    (state : p'.processState = p.processState)
    : (s.put w p').Sound key := by
  have length : (s.put w p').processes.length = s.processes.length := List.length_set
  have empty : (s.put w p').processes = [] ↔ s.processes = [] := by
    rw [← List.length_eq_zero_iff, length, List.length_eq_zero_iff]
  have runs : (s.put w p').runs = s.runs := by
    funext other
    exact Lib.observe_set
      (fun found : Option (ManagedWorker Cmd) => found.elim false ManagedWorker.running)
      managed running other
  refine ⟨?_, fun some_ => sound.restartable (mt empty.mpr some_), ?_, ?_, fun d => ?_, ?_⟩
  · rw [length]
    simp only [empty]
    exact sound.table
  · intro other found shown last
    rw [length] at last
    rcases Lib.getElem?_set_cases shown with ⟨rfl, rfl⟩ | ⟨-, before⟩
    · rw [running, closed, state]
      exact sound.current other p managed last
    · exact sound.current other found before last
  · rw [runs]
    exact sound.alone
  · exact (sound.stands d).congr length (fun w => by rw [runs]; exact id)
  · intro d found shown
    obtain ⟨keyed, commanded⟩ := sound.keyed d found shown
    exact ⟨keyed, commanded.imp_right (mt empty.mp)⟩

theorem Sound.start (sound : s.Sound key) (called : s.calls[c]? = some call)
    (idle : ∀ d, d ≠ c → (s.pcOf d).worker? = none) {attempt : Attempt}
    (first : attempt = .retry → s.processes ≠ [])
    (ending : ManagedWorker Cmd → ManagedWorker Cmd) (cmd : Cmd)
    : (((s.drop key ending).startWorker key cmd).go c call
        (.locking s.processes.length attempt)).Sound key := by
  have called' : ((s.drop key ending).startWorker key cmd).calls[c]? = some call := by
    rwa [← s.drop_calls key ending] at called
  have pcs : (((s.drop key ending).startWorker key cmd).go c call
      (.locking s.processes.length attempt)).pcOf
      = Function.update s.pcOf c (.locking s.processes.length attempt) := by
    rw [pcOf_go called']
    congr 1
    funext d
    rw [pcOf, pcOf, ← s.drop_calls key ending]
    rfl
  have length : ((s.drop key ending).startWorker key cmd).processes.length
      = s.processes.length + 1 := by
    simp [startWorker]
  have newest : ((s.drop key ending).startWorker key cmd).processes[s.processes.length]?
      = some { key, cmd } := by
    simp [startWorker]
  refine ⟨?_, fun _ => ?_, ?_, ?_, fun d => ?_, ?_⟩
  · simp [Manager.go, startWorker]
  · simp [Manager.go, startWorker]
  · intro w p managed last
    obtain rfl : w = s.processes.length := by
      have last : w + 1 = _ := last.trans length
      omega
    obtain rfl := Option.some.inj (managed.symm.trans newest)
    exact ⟨rfl, rfl, fun _ => rfl⟩
  · intro w dead d e has has'
    have only : ∀ d, ((Function.update s.pcOf c (.locking s.processes.length attempt)) d).worker?
        = some w → d = c := by
      intro d has
      rcases Lib.update_cases Pc.worker? has with ⟨rfl, -⟩ | ⟨away, before⟩
      · rfl
      · cases (idle d away).symm.trans before
    rw [pcs] at has has'
    rw [only d has, only e has']
  · rw [pcs]
    by_cases same : d = c
    · rw [same, Function.update_self]
      refine ⟨fun w has => ?_, fun retries has => ?_, (fun h => by cases h), rfl⟩
      · obtain rfl := Option.some.inj has
        exact length.symm
      · cases attempt with
        | first => cases retries
        | retry =>
            have some_ := first rfl
            rw [← List.length_pos_iff] at some_
            have zero : s.processes.length = 0 := Option.some.inj has
            omega
    · rw [Function.update_of_ne same]
      exact stands_of_idle (idle d same) (sound.stands d).kept
  · intro d found shown
    have some_ : ((s.drop key ending).startWorker key cmd).processes ≠ [] := by
      simp [startWorker]
    rcases Lib.getElem?_set_cases shown with ⟨rfl, rfl⟩ | ⟨-, before⟩
    · exact ⟨(sound.keyed _ call called).1, .inr some_⟩
    · have before : (s.drop key ending).calls[d]? = some found := before
      rw [drop_calls] at before
      exact ⟨(sound.keyed d found before).1, .inr some_⟩

theorem Sound.current_worker (sound : s.Sound key) (current : s.workers key = some w)
    : w + 1 = s.processes.length := by
  rw [sound.table] at current
  split at current
  next => cases current
  next some_ =>
    have within := List.length_pos_iff.mpr some_
    obtain rfl := Option.some.inj current
    omega

theorem Sound.existing_of_some (sound : s.Sound key) (some_ : s.processes ≠ [])
    : ∃ w, s.existing key = some w := by
  have table := sound.table
  rw [if_neg some_] at table
  rw [← List.length_pos_iff] at some_
  have within : s.processes.length - 1 < s.processes.length := by omega
  obtain ⟨p, managed⟩ : ∃ p, s.processes[s.processes.length - 1]? = some p :=
    ⟨_, List.getElem?_eq_getElem within⟩
  obtain ⟨-, state, -⟩ := sound.current _ p managed (by omega)
  exact ⟨s.processes.length - 1, by simp [existing, table, managed, state]⟩

theorem Sound.first_of_dead (sound : s.Sound key) (managed : s.processes[w]? = some p)
    (dead : p.running = false) (has : (s.pcOf c).worker? = some w)
    : (s.pcOf c).retries = false := by
  by_contra retries
  have stands := sound.stands c
  have away : w ≠ 0 := by
    rintro rfl
    exact stands.retry (by simpa using retries) has
  obtain ⟨-, -, running⟩ := sound.current w p managed (stands.last w has)
  exact nomatch dead.symm.trans (running away)

theorem Sound.fail (sound : s.Sound key) (called : s.calls[c]? = some call)
    (managed : s.processes[w]? = some p) (dead : p.running = false)
    (has : call.pc.worker? = some w) {attempt : Attempt} (err : SendError)
    (retries : call.pc.retries = decide (attempt = .retry))
    : ((s.put w { p with mu := none }).go c call (.failed w err attempt)).Sound key := by
  have pc := pcOf_of_called called
  have used : (s.pcOf c).worker? = some w := by rw [pc, has]
  have first := sound.first_of_dead managed dead used
  obtain rfl : attempt = .first := by
    rw [pc, retries] at first
    cases attempt with
    | first => rfl
    | retry => cases first
  have put : (s.put w { p with mu := none }).Sound key := sound.put managed rfl rfl rfl
  refine put.go called ⟨?_, nofun, ?_, rfl⟩ (fun other has' => .inl ?_)
  · intro other has'
    obtain rfl := Option.some.inj has'
    exact (put.stands c).last w used
  · intro _ other has'
    obtain rfl := Option.some.inj has'
    rw [runs_of_managed (Lib.getElem?_set_of_some managed)]
    exact dead
  · obtain rfl := Option.some.inj has'
    exact has

theorem Sound.putGo (sound : s.Sound key) (called : s.calls[c]? = some call)
    (managed : s.processes[w]? = some p) (has : call.pc.worker? = some w)
    (running : p'.running = p.running) (closed : p'.closed = p.closed)
    (state : p'.processState = p.processState) (still : pc.worker? = some w)
    (retries : pc.retries = call.pc.retries)
    (failing : pc.failing = true → p.running = false) (kept : pc.lost = false)
    : ((s.put w p').go c call pc).Sound key := by
  have put := sound.put managed running closed state
  have same : (s.put w p').pcOf c = call.pc := pcOf_of_called called
  have stands := put.stands c
  rw [same] at stands
  refine put.go called ⟨?_, ?_, ?_, kept⟩ (fun other has' => .inl (by rw [has, ← still, has']))
  · rw [still, ← has]
    exact stands.last
  · rw [retries, still, ← has]
    exact stands.retry
  · intro fails other has'
    obtain rfl := Option.some.inj (still.symm.trans has')
    rw [runs_of_managed (Lib.getElem?_set_of_some managed), running]
    exact failing fails

theorem mem_users {d : Nat} : d ∈ s.users w ↔ (s.pcOf d).worker? = some w := by
  rw [users, List.mem_filter, List.mem_range, decide_eq_true_iff]
  refine and_iff_right_of_imp (fun has => ?_)
  by_contra beyond
  rw [pcOf, List.getElem?_eq_none (Nat.le_of_not_lt beyond)] at has
  cases has

theorem Sound.died (sound : s.Sound key) (managed : s.processes[0]? = some p)
    (single : ∀ c ∈ s.users 0, ∀ d ∈ s.users 0, c = d)
    : (s.put 0 { p with running := false }).Sound key := by
  have length : (s.put 0 { p with running := false }).processes.length = s.processes.length :=
    List.length_set
  have empty : (s.put 0 { p with running := false }).processes = [] ↔ s.processes = [] := by
    rw [← List.length_eq_zero_iff, length, List.length_eq_zero_iff]
  have elsewhere : ∀ w, w ≠ 0 → (s.put 0 { p with running := false }).runs w = s.runs w := by
    intro w away
    rw [runs, Manager.put, List.getElem?_set_ne (Ne.symm away)]
    rfl
  refine ⟨?_, fun some_ => sound.restartable (mt empty.mpr some_), ?_, ?_, fun d => ?_, ?_⟩
  · rw [length]
    simp only [empty]
    exact sound.table
  · intro w found shown last
    rw [length] at last
    rcases Lib.getElem?_set_cases shown with ⟨rfl, rfl⟩ | ⟨-, before⟩
    · obtain ⟨closed, state, -⟩ := sound.current 0 p managed last
      exact ⟨closed, state, fun away => absurd rfl away⟩
    · exact sound.current w found before last
  · intro w dead d e has has'
    by_cases first : w = 0
    · subst first
      exact single d (mem_users.mpr has) e (mem_users.mpr has')
    · rw [elsewhere w first] at dead
      exact sound.alone w dead d e has has'
  · refine (sound.stands d).congr length (fun w dead => ?_)
    by_cases first : w = 0
    · subst first
      rw [runs_of_managed (Lib.getElem?_set_of_some managed)]
    · rw [elsewhere w first]
      exact dead
  · intro d found shown
    obtain ⟨keyed, commanded⟩ := sound.keyed d found shown
    exact ⟨keyed, commanded.imp_right (mt empty.mp)⟩

theorem Sound.answers (sound : s.Sound key) (answers : List Answer)
    : ({ s with answers := answers } : Manager Cmd).Sound key where
  table := sound.table
  restartable := sound.restartable
  current := sound.current
  alone := sound.alone
  stands d := (sound.stands d).congr rfl (fun _ => id)
  keyed := sound.keyed

theorem Sound.registered (sound : s.Sound key) (key' : String) (cmd : Cmd)
    : ({ s with restart := Function.update s.restart key' (some cmd) } : Manager Cmd).Sound key where
  table := sound.table
  restartable some_ := by
    by_cases same : key = key'
    · simp [same]
    · simpa [Function.update_of_ne same] using sound.restartable some_
  current := sound.current
  alone := sound.alone
  stands d := (sound.stands d).congr rfl (fun _ => id)
  keyed := sound.keyed

theorem Sound.execute (sound : s.Sound key) (asks : call.pc = .getOrCreate)
    (keyed : call.key = key) (commanded : call.cmd.isSome = true ∨ s.processes ≠ [])
    : ({ s with calls := s.calls ++ [call] } : Manager Cmd).Sound key := by
  have pcs : ({ s with calls := s.calls ++ [call] } : Manager Cmd).pcOf = s.pcOf := by
    funext d
    refine Lib.observe_snoc (fun found : Option (Call Cmd) => found.elim Pc.getOrCreate Call.pc)
      ?_ d
    exact asks
  refine ⟨sound.table, sound.restartable, sound.current, ?_, fun d => ?_, ?_⟩
  · rw [pcs]
    exact sound.alone
  · rw [pcs]
    exact (sound.stands d).congr rfl (fun _ => id)
  · intro d found shown
    rcases Lib.getElem?_snoc_cases shown with ⟨-, rfl⟩ | ⟨-, before⟩
    · exact ⟨keyed, commanded⟩
    · exact sound.keyed d found before

theorem Sound.idle_others (sound : s.Sound key) (has : (s.pcOf c).worker? = some w)
    (fails : (s.pcOf c).failing = true) {d : Nat} (away : d ≠ c)
    : (s.pcOf d).worker? = none := by
  have stands := sound.stands c
  have last := stands.last w has
  cases has' : (s.pcOf d).worker? with
  | none => rfl
  | some w' =>
      have last' := (sound.stands d).last w' has'
      obtain rfl : w' = w := by omega
      exact absurd (sound.alone w' (stands.failing fails w' has) d c has' has) away

theorem Sound.dead (sound : s.Sound key) (managed : s.processes[w]? = some p)
    (has : (s.pcOf c).worker? = some w) (ended : p.serving = false)
    : p.running = false := by
  obtain ⟨opened, -, -⟩ := sound.current w p managed ((sound.stands c).last w has)
  simpa [ManagedWorker.serving, opened] using ended

theorem Sound.initial (initial : (machine : Lib.Machine (Manager Cmd) (Label Cmd)).initial s)
    : s.Sound key := by
  obtain ⟨workers, -, processes, calls, -⟩ := initial
  have idle : ∀ c, s.pcOf c = .getOrCreate := by simp [pcOf, calls]
  refine ⟨by simp [workers, processes], by simp [processes], by simp [processes], ?_, ?_,
    by simp [calls]⟩
  · intro w _ c d has
    rw [idle c] at has
    cases has
  · intro c
    rw [idle c]
    exact stands_of_idle rfl rfl

theorem Sound.found (sound : s.Sound key) (called : s.calls[c]? = some call)
    (there : s.existing call.key = some w)
    (spared : ∀ p, s.processes[w]? = some p → p.running = true ∨ s.users w = [])
    : (s.go c call (.locking w .first)).Sound key := by
  obtain ⟨current, p, managed⟩ := existing_managed there
  have keyed := (sound.keyed c call called).1
  refine sound.go called ⟨fun other has => ?_, (fun h => by cases h), (fun h => by cases h), rfl⟩
    (fun other has => .inr ?_)
  · obtain rfl := Option.some.inj has
    exact sound.current_worker (keyed ▸ current)
  · obtain rfl := Option.some.inj has
    refine (spared p managed).imp (fun running => ?_) ?_
    · rw [runs_of_managed managed, running]
    · intro unused d used
      have member := mem_users.mpr used
      rw [unused] at member
      cases member

theorem Sound.created (sound : s.Sound key) (called : s.calls[c]? = some call)
    (absent : s.existing call.key = none) (cmd : Cmd)
    : (((s.drop call.key .close).startWorker call.key cmd).go c call
        (.locking s.processes.length .first)).Sound key := by
  obtain ⟨rfl, -⟩ := sound.keyed c call called
  have none_ : s.processes = [] := by
    by_contra some_
    obtain ⟨w, there⟩ := sound.existing_of_some some_
    cases absent.symm.trans there
  have first : Attempt.first = .retry → s.processes ≠ [] := fun h => by cases h
  refine sound.start called (fun d _ => ?_) first .close cmd
  cases has : (s.pcOf d).worker? with
  | none => rfl
  | some w =>
      have last := (sound.stands d).last w has
      rw [none_] at last
      cases last

theorem Sound.commanded (sound : s.Sound key) (called : s.calls[c]? = some call)
    (absent : s.existing call.key = none)
    : call.cmd ≠ none := by
  intro without
  obtain ⟨rfl, commanded⟩ := sound.keyed c call called
  obtain ⟨w, there⟩ := sound.existing_of_some (commanded.resolve_left (by simp [without]))
  cases absent.symm.trans there

theorem Sound.last_of_restarting (sound : s.Sound key) (called : s.calls[c]? = some call)
    {err : SendError} (asks : call.pc = .restarting w err)
    : w + 1 = s.processes.length := by
  refine (sound.stands c).last w ?_
  rw [pcOf_of_called called, asks]
  rfl

theorem Sound.restarted (sound : s.Sound key) (called : s.calls[c]? = some call)
    {err : SendError} (asks : call.pc = .restarting w err) (cmd : Cmd)
    : (((s.drop call.key .stop).startWorker call.key cmd).go c call
        (.locking s.processes.length .retry)).Sound key := by
  obtain ⟨rfl, -⟩ := sound.keyed c call called
  have pc := (pcOf_of_called called).trans asks
  have has : (s.pcOf c).worker? = some w := by rw [pc]; rfl
  have last := sound.last_of_restarting called asks
  refine sound.start called (fun d away => ?_) (fun _ none_ => ?_) .stop cmd
  · exact sound.idle_others has (by rw [pc]; rfl) away
  · rw [none_] at last
    cases last

theorem Sound.restartable_of_restarting (sound : s.Sound key) (called : s.calls[c]? = some call)
    {err : SendError} (asks : call.pc = .restarting w err)
    : s.restart call.key ≠ none := by
  intro without
  obtain ⟨rfl, -⟩ := sound.keyed c call called
  have last := sound.last_of_restarting called asks
  have command := sound.restartable (List.length_pos_iff.mp (by omega))
  rw [without] at command
  cases command

/-- A reader hands its result to the call that waits for it. -/
theorem Sound.delivered (sound : s.Sound key) (called : s.calls[c]? = some call)
    (managed : s.processes[w]? = some p) (running : p'.running = p.running)
    (closed : p'.closed = p.closed) (state : p'.processState = p.processState)
    {attempt : Attempt} (waits : call.pc = .waiting w attempt none) {result : Option Answer}
    (dead : result = none → p.running = false)
    : ((s.put w p').go c call (call.pc.deliver w result)).Sound key := by
  have sent : call.pc.deliver w result = .waiting w attempt (some result) := by
    simp [waits, Pc.deliver]
  rw [sent]
  refine sound.putGo called managed (by rw [waits]; rfl) running closed state rfl ?_ ?_ rfl
  · rw [waits]
    cases attempt <;> rfl
  · intro fails
    cases result with
    | none => exact dead rfl
    | some answer => cases fails

theorem sound_inductive
    : (machine : Lib.Machine (Manager Cmd) (Label Cmd)).Inductive (Spared key)
        (fun s => s.Tidy ∧ s.Sound key) := by
  have tidy : (machine : Lib.Machine (Manager Cmd) (Label Cmd)).Inductive (Spared key) Tidy := by
    refine tidy_inductive.mono (fun s label spared => ?_)
    unfold Uncancelled
    split
    next => exact absurd spared.1 id
    next => trivial
  refine tidy.strengthen (fun s => .initial) (fun s label s' tidy sound spared taken => ?_)
  cases effect_of_step taken with
  | execute => exact sound.execute rfl spared.1.1 spared.1.2
  | cancel called => exact absurd spared.1 id
  | @found c call starts w called asks there =>
      exact sound.found called there (spared.2 call called w (existing_managed there).1)
  | created called asks absent command => exact sound.created called absent _
  | refused called asks absent without =>
      rcases without with without | unstarted
      · exact absurd without (sound.commanded called absent)
      · cases unstarted.symm.trans spared.1
  | @locked c call w attempt p called wants managed unlocked =>
      refine sound.putGo called managed (by rw [wants]; rfl) rfl rfl rfl rfl ?_
        (fun h => by cases h) rfl
      rw [wants]
      cases attempt <;> rfl
  | @written c call w attempt p called holds managed serving =>
      refine sound.putGo called managed (by rw [holds]; rfl) rfl rfl rfl rfl ?_
        (fun h => by cases h) rfl
      rw [holds]
      cases attempt <;> rfl
  | @unwritten c call w attempt p called holds managed ended =>
      have has : call.pc.worker? = some w := by rw [holds]; rfl
      have used : (s.pcOf c).worker? = some w := by rw [pcOf_of_called called, has]
      refine sound.fail called managed (sound.dead managed used ended) has _ ?_
      rw [holds]
      cases attempt <;> rfl
  | gaveUp called waits _ cancelled =>
      obtain ⟨result, returned⟩ := tidy.calm _ _ called cancelled
      cases waits.symm.trans returned
  | @received c call w attempt answer p called waits managed =>
      have put : (s.put w { p with mu := none }).Sound key := sound.put managed rfl rfl rfl
      exact put.go called (stands_of_idle rfl rfl) (fun _ h => by cases h)
  | @unreceived c call w attempt p called waits managed =>
      have pc := (pcOf_of_called called).trans waits
      have dead := (sound.stands c).failing (by rw [pc]; rfl) w (by rw [pc]; rfl)
      rw [runs_of_managed managed] at dead
      refine sound.fail called managed dead (by rw [waits]; rfl) _ ?_
      rw [waits]
      cases attempt <;> rfl
  | restarted called asks command => exact sound.restarted called asks _
  | unrestarted called asks without =>
      rcases without with without | unstarted
      · exact absurd without (sound.restartable_of_restarting called asks)
      · cases unstarted.symm.trans spared.1
  | @read w c p call answer rest managed called reads piped next =>
      obtain ⟨attempt, pc⟩ := (tidy.turn w p managed).of_reads reads
      rw [pcOf_of_called called] at pc
      exact sound.delivered called managed (by rfl) (by rfl) (by rfl) pc (fun h => by cases h)
  | @unread w c p call managed called reads ended =>
      obtain ⟨attempt, pc⟩ := (tidy.turn w p managed).of_reads reads
      have dead := sound.dead managed (c := c) (by rw [pc]; rfl) ended
      rw [pcOf_of_called called] at pc
      exact sound.delivered called managed (by rfl) (by rfl) (by rfl) pc (fun _ => dead)
  | answered managed running next =>
      refine Sound.answers (s := s.put _ _) ?_ _
      exact sound.put managed rfl rfl rfl
  | died managed running =>
      obtain rfl := spared.1
      exact sound.died managed spared.2
  | registered => exact sound.registered _ _
  | shutdown => exact absurd spared.1 id

end Manager

def Pc.weight : Pc → Nat
  | .getOrCreate => 14
  | .locking _ .first => 12
  | .writing _ .first => 11
  | .waiting _ .first _ => 8
  | .restarting _ _ => 7
  | .locking _ .retry => 5
  | .writing _ .retry => 4
  | .waiting _ .retry _ => 1
  | .returned _ => 0

def ManagedWorker.weight (p : ManagedWorker Cmd) : Nat :=
  p.stdin.length + p.readers.length + p.running.toNat

/-- Steps of calls, readers and workers, but not of contexts and of new calls. -/
def Label.internal : Label Cmd → Bool
  | .call _ .cancel => false
  | .call _ _ | .read _ _ | .answer _ _ | .die _ => true
  | .execute _ _ _ | .setRestartCommand _ _ | .shutdown => false

theorem Pc.weight_deliver (pc : Pc) (w : Nat) (result : Option Answer)
    : (pc.deliver w result).weight = pc.weight := by
  unfold Pc.deliver
  split
  next w' attempt =>
    split
    next => cases attempt <;> rfl
    next => rfl
  next => rfl

namespace Manager

variable {key : String} {s s' : Manager Cmd} {w c : Nat} {p p' : ManagedWorker Cmd}
  {call : Call Cmd} {pc : Pc}

def rank (s : Manager Cmd) : Nat :=
  (s.calls.map (fun call => call.pc.weight)).sum
    + (s.processes.map ManagedWorker.weight).sum

theorem rank_go (called : s.calls[c]? = some call) (pc : Pc)
    : (s.go c call pc).rank + call.pc.weight = s.rank + pc.weight := by
  have sum := Lib.sum_map_set (fun call : Call Cmd => call.pc.weight) called
    { call with pc := pc }
  simp only [rank, go]
  simp only at sum
  omega

theorem rank_put (managed : s.processes[w]? = some p) (p' : ManagedWorker Cmd)
    : (s.put w p').rank + p.weight = s.rank + p'.weight := by
  have sum := Lib.sum_map_set ManagedWorker.weight managed p'
  simp only [rank, put]
  omega

theorem rank_putGo (called : s.calls[c]? = some call) (managed : s.processes[w]? = some p)
    (lower : pc.weight + p'.weight < call.pc.weight + p.weight)
    : ((s.put w p').go c call pc).rank < s.rank := by
  have called' : (s.put w p').calls[c]? = some call := called
  have moved := rank_go called' pc
  have changed := rank_put managed p'
  omega

theorem rank_drop_le {ending : ManagedWorker Cmd → ManagedWorker Cmd}
    (lighter : ∀ p, (ending p).weight ≤ p.weight) (key : String)
    : (s.drop key ending).rank ≤ s.rank := by
  unfold drop
  split
  next => exact Nat.le_refl _
  next w _ => exact Nat.add_le_add_left (Lib.sum_map_modify_le _ lighter w _) _

theorem rank_start {ending : ManagedWorker Cmd → ManagedWorker Cmd}
    (lighter : ∀ p, (ending p).weight ≤ p.weight) (key : String) (cmd : Cmd)
    (called : s.calls[c]? = some call) (lower : pc.weight + 1 < call.pc.weight)
    : (((s.drop key ending).startWorker key cmd).go c call pc).rank < s.rank := by
  have called' : ((s.drop key ending).startWorker key cmd).calls[c]? = some call := by
    rwa [← s.drop_calls key ending] at called
  have moved := rank_go called' pc
  have started : ((s.drop key ending).startWorker key cmd).rank
      = (s.drop key ending).rank + 1 := by
    simp only [rank, startWorker, List.map_append, List.sum_append, List.map_cons, List.map_nil,
      List.sum_cons, List.sum_nil, ManagedWorker.weight, List.length_nil, Bool.toNat_true]
    omega
  have dropped := rank_drop_le (s := s) lighter key
  omega

theorem rank_refused {ending : ManagedWorker Cmd → ManagedWorker Cmd}
    (lighter : ∀ p, (ending p).weight ≤ p.weight) (key : String)
    (called : s.calls[c]? = some call) (lower : pc.weight < call.pc.weight)
    : ((s.drop key ending).go c call pc).rank < s.rank := by
  have called' : (s.drop key ending).calls[c]? = some call := by
    rwa [drop_calls]
  have moved := rank_go called' pc
  have dropped := rank_drop_le (s := s) lighter key
  omega

theorem weight_close_le (p : ManagedWorker Cmd) : p.close.weight ≤ p.weight :=
  Nat.le_refl _

theorem weight_stop_le (p : ManagedWorker Cmd) : p.stop.weight ≤ p.weight :=
  Nat.add_le_add_left (Nat.zero_le _) _

theorem rank_lt {label : Label Cmd} (taken : s.step label = some s')
    (internal : label.internal = true)
    : s'.rank < s.rank := by
  cases effect_of_step taken with
  | execute | cancel | registered | shutdown => cases internal
  | @found c call starts w called asks =>
      have moved := rank_go called (.locking w .first)
      rw [asks] at moved
      simp only [Pc.weight] at moved
      omega
  | created called asks =>
      exact rank_start weight_close_le _ _ called (by simp [asks, Pc.weight])
  | refused called asks =>
      exact rank_refused weight_close_le _ called (by simp [asks, Pc.weight])
  | @locked c call w attempt p called wants managed =>
      refine rank_putGo called managed ?_
      rw [wants]
      cases attempt <;> simp [Pc.weight, ManagedWorker.weight]
  | @written c call w attempt p called holds managed =>
      refine rank_putGo called managed ?_
      rw [holds]
      cases attempt <;> simp [Pc.weight, ManagedWorker.weight] <;> omega
  | @unwritten c call w attempt p called holds managed =>
      refine rank_putGo called managed ?_
      rw [holds]
      cases attempt <;> simp [Pc.weight, Pc.failed, ManagedWorker.weight]
  | @gaveUp c call w attempt ch p called waits managed =>
      refine rank_putGo called managed ?_
      rw [waits]
      cases attempt <;> simp [Pc.weight, Pc.failed, ManagedWorker.weight]
  | @received c call w attempt answer p called waits managed =>
      refine rank_putGo called managed ?_
      rw [waits]
      cases attempt <;> simp [Pc.weight, ManagedWorker.weight]
  | @unreceived c call w attempt p called waits managed =>
      refine rank_putGo called managed ?_
      rw [waits]
      cases attempt <;> simp [Pc.weight, Pc.failed, ManagedWorker.weight]
  | restarted called asks =>
      exact rank_start weight_stop_le _ _ called (by simp [asks, Pc.weight])
  | unrestarted called asks =>
      exact rank_refused weight_stop_le _ called (by simp [asks, Pc.weight])
  | read managed called reads | unread managed called reads =>
      refine rank_putGo called managed ?_
      rw [Pc.weight_deliver]
      have fewer := List.length_erase_of_mem reads
      have some_ := List.length_pos_of_mem reads
      simp only [ManagedWorker.weight]
      omega
  | @answered w p sent rest response managed running next =>
      have changed := rank_put managed
        { p with stdin := rest, stdout := p.stdout ++ [{ toSent := sent, response := response }] }
      simp only [ManagedWorker.weight, next, List.length_cons] at changed
      show Manager.rank (s.put w _) < s.rank
      omega
  | @died w p managed running =>
      have changed := rank_put managed { p with running := false }
      simp only [ManagedWorker.weight, running, Bool.toNat_true, Bool.toNat_false] at changed
      omega

theorem called_of_pcOf (away : s.pcOf c ≠ .getOrCreate)
    : ∃ call, s.calls[c]? = some call ∧ call.pc = s.pcOf c := by
  cases called : s.calls[c]? with
  | none => exact absurd (by rw [pcOf, called]; rfl) away
  | some call => exact ⟨call, rfl, (pcOf_of_called called).symm⟩

def CanStep (key : String) (s : Manager Cmd) : Prop :=
  ∃ label, Spared key s label ∧ label.internal = true ∧ (s.step label).isSome = true

theorem Tidy.reader_advances (tidy : s.Tidy) {attempt : Attempt}
    (waits : s.pcOf c = .waiting w attempt none)
    : s.CanStep key := by
  obtain ⟨call, called, pc⟩ := called_of_pcOf (by rw [waits]; nofun)
  have within := tidy.known c w (by rw [waits]; rfl)
  have managed := List.getElem?_eq_getElem within
  generalize s.processes[w] = p at managed
  have turn := tidy.turn w p managed
  obtain ⟨-, readers⟩ := turn.of_holds (c := c) (by rw [waits]; rfl)
  rw [waits] at readers
  have reads : c ∈ p.readers := by simp [readers, Pc.awaits]
  cases opened : p.closed with
  | true =>
      exact ⟨.read w c, ⟨trivial, trivial⟩, rfl, by
        simp [step, managed, called, Manager.read, reads, opened]⟩
  | false =>
      cases next : p.stdout with
      | cons answer rest =>
          exact ⟨.read w c, ⟨trivial, trivial⟩, rfl, by
            simp [step, managed, called, Manager.read, reads, opened, next]⟩
      | nil =>
          cases running : p.running with
          | false =>
              exact ⟨.read w c, ⟨trivial, trivial⟩, rfl, by
                simp [step, managed, called, Manager.read, reads, opened, next, running]⟩
          | true =>
              have frames := turn.frames (by simp [ManagedWorker.serving, running, opened])
              cases sent : p.stdin with
              | nil => simp [sent, next, readers, Pc.awaits] at frames
              | cons first rest =>
                  let response : WorkResponse := ⟨0, "", 0, false⟩
                  exact ⟨.answer w response, ⟨trivial, trivial⟩, rfl, by
                    simp [step, managed, running, sent]⟩

theorem Tidy.holder_advances (tidy : s.Tidy) (holds : (s.pcOf c).holds = some w)
    : s.CanStep key := by
  have within := tidy.known c w (Pc.worker_of_holds holds)
  have managed := List.getElem?_eq_getElem within
  cases at_ : s.pcOf c with
  | writing w' attempt =>
      rw [at_] at holds
      obtain rfl := Option.some.inj holds
      obtain ⟨call, called, pc⟩ := called_of_pcOf (by rw [at_]; simp)
      exact ⟨.call c .write, ⟨trivial, trivial⟩, rfl, by
        simp [step, called, move, pc.trans at_, within]⟩
  | waiting w' attempt ch =>
      rw [at_] at holds
      obtain rfl := Option.some.inj holds
      cases ch with
      | none => exact tidy.reader_advances at_
      | some result =>
          obtain ⟨call, called, pc⟩ := called_of_pcOf (by rw [at_]; simp)
          exact ⟨.call c .receive, ⟨trivial, trivial⟩, rfl, by
            simp [step, called, move, pc.trans at_, within]⟩
  | getOrCreate | locking | restarting | returned =>
      rw [at_] at holds
      cases holds

theorem Tidy.user_advances (tidy : s.Tidy) (has : (s.pcOf c).worker? = some w)
    : s.CanStep key := by
  have within := tidy.known c w has
  have managed := List.getElem?_eq_getElem within
  cases at_ : s.pcOf c with
  | locking w' attempt =>
      rw [at_] at has
      obtain rfl := Option.some.inj has
      cases mu : s.processes[w'].mu with
      | some d => exact tidy.holder_advances (((tidy.turn w' _ managed).held d).mp mu)
      | none =>
          obtain ⟨call, called, pc⟩ := called_of_pcOf (by rw [at_]; simp)
          exact ⟨.call c .lock, ⟨trivial, trivial⟩, rfl, by
            simp [step, called, move, pc.trans at_, within, mu]⟩
  | writing | waiting =>
      rw [at_] at has
      exact tidy.holder_advances (by rw [at_]; exact has)
  | restarting w' err =>
      obtain ⟨call, called, pc⟩ := called_of_pcOf (by rw [at_]; simp)
      exact ⟨.call c (.restart true), ⟨rfl, trivial⟩, rfl, by
        simp [step, called, move, pc.trans at_]⟩
  | getOrCreate | returned =>
      rw [at_] at has
      cases has

theorem Tidy.advances (tidy : s.Tidy) (called : s.calls[c]? = some call)
    (running : ∀ result, call.pc ≠ .returned result)
    : s.CanStep key := by
  have pc := pcOf_of_called called
  cases has : call.pc.worker? with
  | some w => exact tidy.user_advances (by rw [pc, has])
  | none =>
      have asks : call.pc = .getOrCreate := by
        cases at_ : call.pc with
        | getOrCreate => rfl
        | returned result => exact absurd at_ (running result)
        | _ => simp [at_, Pc.worker?] at has
      -- Another call may have the dead worker that this one would get; then that one goes on.
      by_cases free : Exclusive s (.call c (.getOrCreate true))
      · exact ⟨.call c (.getOrCreate true), ⟨rfl, free⟩, rfl, by
          simp [step, called, move, asks]⟩
      · simp only [Exclusive, not_forall, not_or] at free
        obtain ⟨_, _, w, _, p, _, _, used⟩ := free
        obtain ⟨d, member⟩ := List.exists_mem_of_ne_nil _ used
        exact tidy.user_advances (mem_users.mp member)

def AllReturned (s : Manager Cmd) : Prop :=
  ∀ (c : Nat) (call : Call Cmd), s.calls[c]? = some call →
    ∃ result, call.pc = .returned (.ok result)

/-- When at most one call has the process that dies, no `Execute` returns an error, whatever the
interleaving. From every state reached, the steps of calls, readers and workers come to an end,
and when no more of them is possible all calls have returned a result.
-/
theorem single_user_survives_crash (reached : machine.Reachable (Spared key) s)
    : (∀ (c : Nat) (call : Call Cmd), s.calls[c]? = some call →
        ∀ err, call.pc ≠ .returned (.error err))
      ∧ ∀ labels s',
          machine.Run (fun s label => Spared key s label ∧ label.internal = true) s labels s' →
          labels.length ≤ s.rank ∧ (s'.CanStep key ∨ s'.AllReturned) := by
  have kept : ∀ {s : Manager Cmd}, machine.Reachable (Spared key) s →
      ∀ (c : Nat) (call : Call Cmd), s.calls[c]? = some call →
        ∀ err, call.pc ≠ .returned (.error err) := by
    intro s reached c call called err returned
    obtain ⟨-, sound⟩ := sound_inductive.reachable reached
    have lost := (sound.stands c).kept
    rw [pcOf_of_called called, returned] at lost
    cases lost
  refine ⟨kept reached, fun labels s' run => ⟨?_, ?_⟩⟩
  · have bound := run.length_le (fun s label s' allowed taken => rank_lt taken allowed.2)
    omega
  · have later := reached.after (run.mono (fun s label allowed => allowed.1))
    obtain ⟨tidy, -⟩ := sound_inductive.reachable later
    by_cases finished : s'.AllReturned
    · exact .inr finished
    · refine .inl ?_
      simp only [AllReturned, not_forall] at finished
      obtain ⟨c, call, called, running⟩ := finished
      refine tidy.advances called (fun result returned => ?_)
      cases result with
      | ok result => exact running ⟨result, returned⟩
      | error err => exact kept later c call called err returned

instance (s : Manager Cmd) (label : Label Cmd) : Decidable (OneCrash key s label) :=
  match label with
  | .execute .. => inferInstanceAs (Decidable (_ ∧ _))
  | .call _ (.getOrCreate _) | .call _ (.restart _) | .die _ => inferInstanceAs (Decidable (_ = _))
  | .call _ .cancel | .shutdown => inferInstanceAs (Decidable False)
  | .call _ .lock | .call _ .write | .call _ .contextDone | .call _ .receive | .read ..
  | .answer .. | .setRestartCommand .. => inferInstanceAs (Decidable True)

instance (s : Manager Cmd) (label : Label Cmd) : Decidable (Exclusive s label) :=
  match label with
  | .die _ | .call _ (.getOrCreate _) => inferInstanceAs (Decidable (∀ _ ∈ _, _))
  | .call _ .cancel | .call _ .lock | .call _ .write | .call _ .contextDone | .call _ .receive
  | .call _ (.restart _) | .execute .. | .read .. | .answer .. | .setRestartCommand ..
  | .shutdown => inferInstanceAs (Decidable True)

instance (s : Manager Cmd) (label : Label Cmd) : Decidable (Spared key s label) :=
  inferInstanceAs (Decidable (_ ∧ _))

/-- The process dies under the first call; the second one comes after the restart. -/
def oneUserLabels : List (Label Unit) :=
  bothCalls
    ++ [.call 0 (.getOrCreate true), .call 0 .lock, .call 0 .write, .die 0, .read 0 0,
      .call 0 .receive, .call 0 (.restart true), .call 1 (.getOrCreate true)]

/-- Both calls go on to their results. -/
theorem one_user_survives
    : ∃ s, machine.Run (Spared "javac") fresh oneUserLabels s
        ∧ s.runs 0 = false
        ∧ ∀ labels s',
            machine.Run (fun s label => Spared "javac" s label ∧ label.internal = true)
              s labels s' →
            labels.length ≤ s.rank ∧ (s'.CanStep "javac" ∨ s'.AllReturned) := by
  obtain ⟨s, run, tested⟩ := Lib.Machine.exists_run_of_execIf machine (Spared "javac") fresh
    oneUserLabels (fun s => s.runs 0 = false) (by decide)
  have survives := single_user_survives_crash ⟨fresh, _, ⟨rfl, rfl, rfl, rfl, rfl⟩, run⟩
  exact ⟨s, run, of_decide_eq_true tested, survives.2⟩

/-- The process dies under both calls. The first one restarts it and sends its request again;
the second one fails as well and restarts the worker that the first one waits for.
-/
def twoUserLabels : List (Label Unit) :=
  bothCalls
    ++ [.call 0 (.getOrCreate true), .call 1 (.getOrCreate true), .die 0, .call 0 .lock,
      .call 0 .write, .call 0 (.restart true), .call 0 .lock, .call 0 .write, .call 1 .lock,
      .call 1 .write, .call 1 (.restart true), .read 1 0, .call 0 .receive]

def errorOf (s : Manager Cmd) (c : Nat) : Option ExecuteError :=
  match s.pcOf c with
  | .returned (.error err) => some err
  | _ => none

/-- The first call returns an error, although one process died and every new one is healthy. -/
theorem second_restart_loses_request
    : ∃ s, machine.Run (OneCrash "javac") fresh twoUserLabels s
        ∧ s.errorOf 0 = some (.afterRestart .read) := by
  obtain ⟨s, run, tested⟩ := Lib.Machine.exists_run_of_execIf machine (OneCrash "javac") fresh
    twoUserLabels (fun s => s.errorOf 0 = some (.afterRestart .read)) (by decide)
  exact ⟨s, run, of_decide_eq_true tested⟩

end Manager

end GoREgo.Persistent
