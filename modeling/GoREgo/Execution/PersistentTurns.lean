import GoREgo.Execution.PersistentAnswers
import GoREgo.Lib.Maps

/-! Taking turns on a worker: while no context is done before its `Execute` has returned, the
call that holds a worker's mutex is the only one with a request, an answer or a reader there.
So such calls find every worker drained.
-/

namespace GoREgo.Persistent

variable {Cmd : Type}

def Pc.worker? : Pc → Option Nat
  | .locking w _ | .writing w _ | .waiting w _ _ | .restarting w _ => some w
  | .getOrCreate | .returned _ => none

def Pc.holds : Pc → Option Nat
  | .writing w _ | .waiting w _ _ => some w
  | _ => none

def Pc.awaits : Pc → Bool
  | .waiting _ _ none => true
  | _ => false

@[simp] theorem Pc.failed_holds (w : Nat) (err : SendError) (attempt : Attempt)
    : (Pc.failed w err attempt).holds = none := by
  cases attempt <;> rfl

@[simp] theorem Pc.failed_awaits (w : Nat) (err : SendError) (attempt : Attempt)
    : (Pc.failed w err attempt).awaits = false := by
  cases attempt <;> rfl

theorem Pc.failed_worker (w : Nat) (err : SendError) (attempt : Attempt)
    : (Pc.failed w err attempt).worker? = some w ∨ (Pc.failed w err attempt).worker? = none := by
  cases attempt with
  | first => exact .inl rfl
  | retry => exact .inr rfl

theorem Pc.worker_of_holds {pc : Pc} {w : Nat} (holds : pc.holds = some w)
    : pc.worker? = some w := by
  cases pc with
  | writing | waiting => exact holds
  | getOrCreate | locking | restarting | returned => cases holds

theorem Pc.waiting_of_awaits {pc : Pc} (awaits : pc.awaits = true)
    : ∃ w attempt, pc = .waiting w attempt none := by
  cases pc with
  | waiting w attempt ch =>
      cases ch with
      | none => exact ⟨w, attempt, rfl⟩
      | some => cases awaits
  | getOrCreate | locking | writing | restarting | returned => cases awaits

/-- A worker among calls that stand at `pcs`: it is held by the call that says so, its holder
alone reads from it, and as long as it serves it has one frame for its reader.
-/
structure ManagedWorker.Turn (pcs : Nat → Pc) (w : Nat) (p : ManagedWorker Cmd) : Prop where
  held : ∀ c, p.mu = some c ↔ (pcs c).holds = some w
  readers : p.readers = p.mu.toList.filter (fun c => (pcs c).awaits)
  frames : p.serving = true → p.stdin.length + p.stdout.length = p.readers.length

namespace ManagedWorker

variable {pcs pcs' : Nat → Pc} {w c : Nat} {p p' : ManagedWorker Cmd}

theorem Turn.congr (turn : p.Turn pcs w)
    (holding : ∀ d, (pcs' d).holds = some w ↔ (pcs d).holds = some w)
    (awaits : ∀ d, p.mu = some d → (pcs' d).awaits = (pcs d).awaits)
    : p.Turn pcs' w where
  held d := (turn.held d).trans (holding d).symm
  readers := by
    rw [turn.readers]
    cases mu : p.mu with
    | none => rfl
    | some d => simp [List.filter_cons, awaits d mu]
  frames := turn.frames

theorem Turn.keep (turn : p.Turn pcs w) (mu : p'.mu = p.mu) (readers : p'.readers = p.readers)
    (frames
      : p'.serving = true → p.serving = true
          ∧ p'.stdin.length + p'.stdout.length = p.stdin.length + p.stdout.length)
    : p'.Turn pcs w where
  held d := by
    rw [mu]
    exact turn.held d
  readers := by
    rw [readers, turn.readers, mu]
  frames serving := by
    obtain ⟨before, same⟩ := frames serving
    rw [same, readers]
    exact turn.frames before

theorem Turn.close (turn : p.Turn pcs w) : p.close.Turn pcs w :=
  turn.keep rfl rfl (fun serving => by simp [ManagedWorker.close, ManagedWorker.serving] at serving)

theorem Turn.stop (turn : p.Turn pcs w) : p.stop.Turn pcs w :=
  turn.keep rfl rfl (fun serving => by simp [ManagedWorker.stop, ManagedWorker.serving] at serving)

theorem Turn.of_holds (turn : p.Turn pcs w) (holds : (pcs c).holds = some w)
    : p.mu = some c ∧ p.readers = if (pcs c).awaits = true then [c] else [] := by
  have mu := (turn.held c).mpr holds
  refine ⟨mu, ?_⟩
  rw [turn.readers, mu]
  simp [List.filter_cons]

theorem Turn.of_reads (turn : p.Turn pcs w) (reads : c ∈ p.readers)
    : ∃ attempt, pcs c = .waiting w attempt none := by
  rw [turn.readers, List.mem_filter, Option.mem_toList] at reads
  obtain ⟨mu, waits⟩ := reads
  obtain ⟨w', attempt, waiting⟩ := Pc.waiting_of_awaits waits
  have holds := (turn.held c).mp mu
  rw [waiting] at holds
  obtain rfl := Option.some.inj holds
  exact ⟨attempt, waiting⟩

end ManagedWorker

namespace Manager

/-- Where the call `c` stands; a call that is not made yet has no worker. -/
def pcOf (s : Manager Cmd) (c : Nat) : Pc :=
  (s.calls[c]?).elim .getOrCreate Call.pc

def Calm (s : Manager Cmd) : Prop :=
  ∀ (c : Nat) (call : Call Cmd), s.calls[c]? = some call → call.cancelled = true →
    ∃ result, call.pc = .returned result

structure Tidy (s : Manager Cmd) : Prop where
  turn : ∀ (w : Nat) (p : ManagedWorker Cmd), s.processes[w]? = some p → p.Turn s.pcOf w
  known : ∀ c w, (s.pcOf c).worker? = some w → w < s.processes.length
  calm : s.Calm

variable {s s' : Manager Cmd} {w c : Nat} {p p' : ManagedWorker Cmd} {call : Call Cmd} {pc : Pc}

theorem pcOf_of_called (called : s.calls[c]? = some call) : s.pcOf c = call.pc := by
  rw [pcOf, called]
  rfl

theorem pcOf_go (called : s.calls[c]? = some call)
    : (s.go c call pc).pcOf = Function.update s.pcOf c pc := by
  funext other
  by_cases same : other = c
  · subst same
    simp [pcOf, go, Lib.getElem?_set_of_some called]
  · simp [pcOf, go, List.getElem?_set_ne (Ne.symm same), Function.update_of_ne same]

theorem Calm.go (calm : s.Calm) (called : s.calls[c]? = some call)
    (stays : ∀ result, call.pc ≠ .returned result)
    : (s.go c call pc).Calm := by
  intro d found shown cancelled
  rcases Lib.getElem?_set_cases shown with ⟨rfl, rfl⟩ | ⟨-, before⟩
  · obtain ⟨result, returned⟩ := calm _ call called cancelled
    exact absurd returned (stays result)
  · exact calm d found before cancelled

theorem Tidy.go (tidy : s.Tidy) (called : s.calls[c]? = some call)
    (idle : call.pc.holds = none) (holds : pc.holds = none)
    (stays : ∀ result, call.pc ≠ .returned result)
    (known : ∀ w, pc.worker? = some w → w < s.processes.length)
    : (s.go c call pc).Tidy where
  turn w p managed := by
    have turn := tidy.turn w p managed
    rw [pcOf_go called]
    refine turn.congr (fun d => ?_) (fun d mu => ?_)
    · by_cases same : d = c
      · rw [same, Function.update_self, pcOf_of_called called, idle, holds]
      · rw [Function.update_of_ne same]
    · have away : d ≠ c := by
        rintro rfl
        have holds := (turn.held d).mp mu
        rw [pcOf_of_called called, idle] at holds
        cases holds
      rw [Function.update_of_ne away]
  known d w has := by
    rw [pcOf_go called] at has
    rcases Lib.update_cases Pc.worker? has with ⟨-, new⟩ | ⟨-, before⟩
    · exact known w new
    · exact tidy.known d w before
  calm := tidy.calm.go called stays

theorem Tidy.putGo (tidy : s.Tidy) (called : s.calls[c]? = some call)
    (managed : s.processes[w]? = some p) (own : ∀ d, p.mu = some d → d = c)
    (before : call.pc.holds = none ∨ call.pc.holds = some w)
    (after : pc.holds = none ∨ pc.holds = some w) (has : pc.worker? = some w ∨ pc.worker? = none)
    (stays : ∀ result, call.pc ≠ .returned result)
    (mu : p'.mu = if pc.holds = some w then some c else none)
    (readers : p'.readers = if pc.awaits = true then [c] else [])
    (frames : p'.serving = true → p'.stdin.length + p'.stdout.length = p'.readers.length)
    : ((s.put w p').go c call pc).Tidy := by
  have called' : (s.put w p').calls[c]? = some call := called
  have pcs : ((s.put w p').go c call pc).pcOf = Function.update s.pcOf c pc := pcOf_go called'
  refine ⟨fun other found shown => ?_, fun d w' has' => ?_, Calm.go tidy.calm called' stays⟩
  · rw [pcs]
    rcases Lib.getElem?_set_cases shown with ⟨rfl, rfl⟩ | ⟨away, earlier⟩
    · have turn := tidy.turn other p managed
      refine ⟨fun d => ?_, ?_, frames⟩
      · rw [mu]
        by_cases same : d = c
        · rw [same, Function.update_self]
          rcases after with none_ | some_ <;> simp [*]
        · rw [Function.update_of_ne same]
          have unheld : (s.pcOf d).holds ≠ some other := fun holds =>
            same (own d ((turn.held d).mpr holds))
          have unlocked : (if pc.holds = some other then some c else none) ≠ some d := by
            split <;> simp [Ne.symm same]
          exact iff_of_false unlocked unheld
      · rw [readers, mu]
        cases waits : pc.awaits with
        | true =>
            obtain ⟨w', attempt, rfl⟩ := Pc.waiting_of_awaits waits
            obtain rfl : w' = other := by simpa [Pc.holds] using after
            simp [Pc.holds, waits]
        | false => rcases after with none_ | some_ <;> simp [*]
    · have turn := tidy.turn other found earlier
      have elsewhere : ∀ {pc : Pc}, pc.holds = none ∨ pc.holds = some w →
          pc.holds ≠ some other := by
        rintro pc (none_ | some_) <;> simp [*, Ne.symm away]
      refine turn.congr (fun d => ?_) (fun d held => ?_)
      · by_cases same : d = c
        · rw [same, Function.update_self, pcOf_of_called called]
          exact iff_of_false (elsewhere after) (elsewhere before)
        · rw [Function.update_of_ne same]
      · have away' : d ≠ c := by
          rintro rfl
          have holds := (turn.held d).mp held
          rw [pcOf_of_called called] at holds
          exact elsewhere before holds
        rw [Function.update_of_ne away']
  · have length : ((s.put w p').go c call pc).processes.length = s.processes.length :=
      List.length_set
    rw [length]
    rw [pcs] at has'
    rcases Lib.update_cases Pc.worker? has' with ⟨-, new⟩ | ⟨-, earlier⟩
    · rcases has with some_ | none_
      · obtain rfl := Option.some.inj (some_.symm.trans new)
        exact (List.getElem?_eq_some_iff.mp managed).1
      · exact nomatch none_.symm.trans new
    · exact tidy.known d w' earlier

theorem Tidy.workers (tidy : s.Tidy) (pcs : s'.pcOf = s.pcOf) (calm : s'.Calm)
    (length : s.processes.length ≤ s'.processes.length)
    (turn
      : ∀ (w : Nat) (p : ManagedWorker Cmd), s'.processes[w]? = some p → p.Turn s.pcOf w)
    : s'.Tidy where
  turn w p managed := by
    rw [pcs]
    exact turn w p managed
  known c w has := by
    rw [pcs] at has
    exact Nat.lt_of_lt_of_le (tidy.known c w has) length
  calm := calm

theorem Tidy.put (tidy : s.Tidy) (turn : p.Turn s.pcOf w) : (s.put w p).Tidy := by
  refine tidy.workers rfl tidy.calm (Nat.le_of_eq List.length_set.symm) ?_
  intro other found shown
  rcases Lib.getElem?_set_cases shown with ⟨rfl, rfl⟩ | ⟨-, before⟩
  · exact turn
  · exact tidy.turn other found before

theorem Tidy.answered (tidy : s.Tidy) (managed : s.processes[w]? = some p) {sent : Sent}
    {rest : List Sent} (next : p.stdin = sent :: rest) (response : WorkResponse)
    : ({ s.put w
          { p with stdin := rest, stdout := p.stdout ++ [{ sent with response }] } with
        answers := s.answers ++ [{ sent with response }] } : Manager Cmd).Tidy := by
  refine tidy.workers rfl tidy.calm (Nat.le_of_eq List.length_set.symm) ?_
  intro other found shown
  rcases Lib.getElem?_set_cases shown with ⟨rfl, rfl⟩ | ⟨-, before⟩
  · refine (tidy.turn other p managed).keep rfl rfl (fun serving => ⟨serving, ?_⟩)
    simp only [next, List.length_append, List.length_cons, List.length_nil]
    omega
  · exact tidy.turn other found before

theorem Tidy.drop (tidy : s.Tidy) {key : String}
    {ending : ManagedWorker Cmd → ManagedWorker Cmd}
    (ends : ∀ {w p}, p.Turn s.pcOf w → (ending p).Turn s.pcOf w)
    : (s.drop key ending).Tidy := by
  have pcs : (s.drop key ending).pcOf = s.pcOf := by
    funext c
    rw [pcOf, drop_calls]
    rfl
  have calm : (s.drop key ending).Calm := by
    rw [Calm, drop_calls]
    exact tidy.calm
  refine tidy.workers pcs calm (Nat.le_of_eq (s.drop_length key ending).symm) ?_
  intro other found shown
  unfold Manager.drop at shown
  split at shown
  next => exact tidy.turn other found shown
  next w current =>
    rw [List.getElem?_modify] at shown
    obtain ⟨before, managed, rfl⟩ := Option.map_eq_some_iff.mp shown
    have turn := tidy.turn other before managed
    split
    next => exact ends turn
    next => exact turn

theorem Tidy.startWorker (tidy : s.Tidy) (key : String) (cmd : Cmd)
    : (s.startWorker key cmd).Tidy := by
  refine tidy.workers rfl tidy.calm (by simp [Manager.startWorker]) ?_
  intro other found shown
  rcases Lib.getElem?_snoc_cases shown with ⟨rfl, rfl⟩ | ⟨-, before⟩
  · refine ⟨fun d => iff_of_false nofun (fun holds => ?_), rfl, fun _ => rfl⟩
    exact Nat.lt_irrefl _ (tidy.known d _ (Pc.worker_of_holds holds))
  · exact tidy.turn other found before

theorem Tidy.shutdown (tidy : s.Tidy) : s.shutdown.Tidy := by
  refine tidy.workers rfl tidy.calm (Nat.le_of_eq List.length_mapIdx.symm) ?_
  intro other found shown
  obtain ⟨before, managed, rfl⟩ := Option.map_eq_some_iff.mp (List.getElem?_mapIdx ▸ shown)
  have turn := tidy.turn other before managed
  split
  next => exact turn.stop
  next => exact turn

theorem Tidy.execute (tidy : s.Tidy) (asks : call.pc = .getOrCreate)
    (live : call.cancelled = false)
    : ({ s with calls := s.calls ++ [call] } : Manager Cmd).Tidy := by
  refine tidy.workers (funext fun d => ?_) (fun d found shown cancelled => ?_) (Nat.le_refl _)
    tidy.turn
  · refine Lib.observe_snoc (fun found : Option (Call Cmd) => found.elim Pc.getOrCreate Call.pc)
      ?_ d
    exact asks
  · rcases Lib.getElem?_snoc_cases shown with ⟨-, rfl⟩ | ⟨-, before⟩
    · exact nomatch live.symm.trans cancelled
    · exact tidy.calm d found before cancelled

theorem Tidy.cancel (tidy : s.Tidy) (called : s.calls[c]? = some call)
    (returned : ∃ result, call.pc = .returned result)
    : ({ s with calls := s.calls.set c { call with cancelled := true } } : Manager Cmd).Tidy := by
  refine tidy.workers (funext fun d => ?_) (fun d found shown cancelled => ?_) (Nat.le_refl _)
    tidy.turn
  · refine Lib.observe_set (fun found : Option (Call Cmd) => found.elim Pc.getOrCreate Call.pc)
      called ?_ d
    rfl
  · rcases Lib.getElem?_set_cases shown with ⟨-, rfl⟩ | ⟨-, before⟩
    · exact returned
    · exact tidy.calm d found before cancelled

theorem existing_managed {key : String} (there : s.existing key = some w)
    : s.workers key = some w ∧ ∃ p, s.processes[w]? = some p := by
  obtain ⟨current, managed⟩ := Option.filter_eq_some_iff.mp there
  obtain ⟨p, found, -⟩ := (Option.any_eq_true _ _).mp managed
  exact ⟨current, p, found⟩

def Uncancelled (s : Manager Cmd) : Label Cmd → Prop
  | .call c .cancel =>
      ∀ call, s.calls[c]? = some call → ∃ result, call.pc = .returned result
  | _ => True

theorem Tidy.unlock (tidy : s.Tidy) (called : s.calls[c]? = some call)
    (managed : s.processes[w]? = some p) (holds : call.pc.holds = some w)
    (sent : call.pc.awaits = false) (after : pc.holds = none) (still : pc.awaits = false)
    (has : pc.worker? = some w ∨ pc.worker? = none)
    : ((s.put w { p with mu := none }).go c call pc).Tidy := by
  have turn := tidy.turn w p managed
  obtain ⟨mu, readers⟩ := turn.of_holds (c := c) (by rw [pcOf_of_called called, holds])
  rw [pcOf_of_called called, sent] at readers
  refine tidy.putGo called managed (by simp [mu]) (.inr holds) (.inl after) has ?_ (by simp [after])
    (by simpa [still] using readers) turn.frames
  intro result returned
  rw [returned] at holds
  cases holds

theorem Tidy.deliver (tidy : s.Tidy) (managed : s.processes[w]? = some p)
    (called : s.calls[c]? = some call) (reads : c ∈ p.readers) (result : Option Answer)
    {stdout : List Answer}
    (frames : p.serving = true → p.stdin.length + stdout.length + 1 = p.stdin.length + p.stdout.length)
    : ((s.put w { p with readers := p.readers.erase c, stdout := stdout }).go c call
        (call.pc.deliver w result)).Tidy := by
  have turn := tidy.turn w p managed
  obtain ⟨attempt, waiting⟩ := turn.of_reads reads
  obtain ⟨mu, readers⟩ := turn.of_holds (c := c) (by rw [waiting]; rfl)
  rw [waiting] at readers
  rw [pcOf_of_called called] at waiting
  have next : call.pc.deliver w result = .waiting w attempt (some result) := by
    simp [waiting, Pc.deliver]
  rw [next]
  refine tidy.putGo called managed (by simp [mu]) (.inr (by rw [waiting]; rfl)) (.inr rfl)
    (.inl rfl) (by simp [waiting]) (by simp [Pc.holds, mu]) ?_ (fun serving => ?_)
  · simp [readers, Pc.awaits]
  · have before := turn.frames serving
    have taken := frames serving
    simp only [readers, Pc.awaits, if_true, List.length_singleton, List.erase_cons_head,
      List.length_nil] at before ⊢
    omega

theorem tidy_inductive : (machine : Lib.Machine (Manager Cmd) (Label Cmd)).Inductive Uncancelled Tidy where
  start s initial := by
    obtain ⟨-, -, processes, calls, -⟩ := initial
    exact ⟨by simp [processes], by simp [pcOf, calls, Pc.worker?], by simp [Calm, calls]⟩
  keeps s label s' tidy calm taken := by
    cases effect_of_step taken with
    | execute => exact tidy.execute rfl rfl
    | cancel called => exact tidy.cancel called (calm _ called)
    | found called asks there =>
        refine tidy.go called (by rw [asks]; rfl) rfl (by simp [asks]) (fun w has => ?_)
        obtain rfl := Option.some.inj has
        obtain ⟨-, p, managed⟩ := existing_managed there
        exact (List.getElem?_eq_some_iff.mp managed).1
    | created called asks =>
        refine ((tidy.drop (·.close)).startWorker _ _).go ?_ (by rw [asks]; rfl) rfl
          (by simp [asks]) (fun w has => ?_)
        · rwa [← s.drop_calls] at called
        · obtain rfl := Option.some.inj has
          simp [startWorker]
    | refused called asks =>
        refine (tidy.drop (·.close)).go ?_ (by rw [asks]; rfl) rfl (by simp [asks]) nofun
        rwa [drop_calls]
    | @locked c call w attempt p called wants managed unlocked =>
        have turn := tidy.turn w p managed
        refine tidy.putGo called managed (by simp [unlocked]) (.inl (by rw [wants]; rfl))
          (.inr rfl) (.inl rfl) (by simp [wants]) (by simp [Pc.holds]) ?_ turn.frames
        simp [turn.readers, unlocked, Pc.awaits]
    | @written c call w attempt p called holds managed serving =>
        have turn := tidy.turn w p managed
        have pc := (pcOf_of_called called).trans holds
        obtain ⟨mu, readers⟩ := turn.of_holds (c := c) (by rw [pc]; rfl)
        have frames := turn.frames serving
        simp only [pc, Pc.awaits, Bool.false_eq_true, if_false] at readers
        refine tidy.putGo called managed (by simp [mu]) (.inr (by rw [holds]; rfl)) (.inr rfl)
          (.inl rfl) (by simp [holds]) (by simp [Pc.holds, mu]) (by simp [Pc.awaits, readers]) ?_
        intro _
        simp only [readers, List.length_nil, List.length_append, List.length_cons] at frames ⊢
        omega
    | unwritten called holds managed =>
        exact tidy.unlock called managed (by rw [holds]; rfl) (by rw [holds]; rfl) (by simp)
          (by simp) (Pc.failed_worker ..)
    | gaveUp called waits _ cancelled =>
        obtain ⟨result, returned⟩ := tidy.calm _ _ called cancelled
        exact nomatch waits.symm.trans returned
    | received called waits managed =>
        exact tidy.unlock called managed (by rw [waits]; rfl) (by rw [waits]; rfl) rfl rfl
          (.inr rfl)
    | unreceived called waits managed =>
        exact tidy.unlock called managed (by rw [waits]; rfl) (by rw [waits]; rfl) (by simp)
          (by simp) (Pc.failed_worker ..)
    | restarted called asks =>
        refine ((tidy.drop (·.stop)).startWorker _ _).go ?_ (by rw [asks]; rfl) rfl
          (by simp [asks]) (fun w has => ?_)
        · rwa [← s.drop_calls] at called
        · obtain rfl := Option.some.inj has
          simp [startWorker]
    | unrestarted called asks =>
        refine (tidy.drop (·.stop)).go ?_ (by rw [asks]; rfl) rfl (by simp [asks]) nofun
        rwa [drop_calls]
    | read managed called reads piped next =>
        refine tidy.deliver managed called reads _ (fun _ => ?_)
        rw [next, List.length_cons]
        omega
    | unread managed called reads ended =>
        exact tidy.deliver managed called reads _ (fun serving => nomatch ended.symm.trans serving)
    | answered managed _ next => exact tidy.answered managed next _
    | died managed =>
        refine tidy.put ((tidy.turn _ _ managed).keep rfl rfl (fun serving => ?_))
        cases serving
    | registered => exact tidy.workers rfl tidy.calm (Nat.le_refl _) tidy.turn
    | shutdown => exact tidy.shutdown

theorem Tidy.drained (tidy : s.Tidy) (label : Label Cmd) : Drained s label := by
  unfold Drained
  split
  next c =>
    intro p written serving
    unfold writesTo at written
    split at written
    next w attempt shown =>
      obtain ⟨call, called, holds⟩ := Option.map_eq_some_iff.mp shown
      have turn := tidy.turn w p written
      have pc := (pcOf_of_called called).trans holds
      obtain ⟨-, readers⟩ := turn.of_holds (c := c) (by rw [pc]; rfl)
      have frames := turn.frames serving
      simp only [pc, Pc.awaits, Bool.false_eq_true, if_false] at readers
      simp only [readers, List.length_nil, Nat.add_eq_zero_iff, List.length_eq_zero_iff] at frames
      simp [ManagedWorker.drained, readers, frames]
    next => cases written
  next => trivial

theorem drained_of_uncancelled (reached : machine.Reachable Uncancelled s) (label : Label Cmd)
    : Drained s label :=
  (tidy_inductive.reachable reached).drained label

theorem tidy_matched_inductive
    : (machine : Lib.Machine (Manager Cmd) (Label Cmd)).Inductive Uncancelled
        (fun s => s.Tidy ∧ s.Matched) :=
  tidy_inductive.strengthen matched_inductive.start
    (fun _ label _ tidy matched _ => matched_inductive.keeps _ _ _ matched (tidy.drained label))

/-- Calls whose contexts outlive them take turns, also when processes die and are restarted: a
worker that serves has one frame at most, for the call that holds its mutex, and each call that
returns a result returns the answer to its own request.
-/
theorem uncancelled_calls_take_turns (reached : machine.Reachable Uncancelled s)
    : (∀ (w : Nat) (p : ManagedWorker Cmd), s.processes[w]? = some p → p.serving = true →
        p.stdin.length + p.stdout.length ≤ 1 ∧ ∀ c ∈ p.readers, p.mu = some c)
      ∧ ∀ c result, s.resultOf c = some result →
          ∃ answer ∈ s.answers, answer.caller = c ∧ s.requestOf c = some answer.request
            ∧ answer.response.result = result := by
  obtain ⟨tidy, matched⟩ := tidy_matched_inductive.reachable reached
  refine ⟨fun w p managed serving => ?_, fun c result returned => ?_⟩
  · have turn := tidy.turn w p managed
    rw [turn.frames serving, turn.readers]
    refine ⟨(List.length_filter_le ..).trans (by cases p.mu <;> simp), fun c reads => ?_⟩
    exact Option.mem_toList.mp (List.mem_of_mem_filter reads)
  · unfold resultOf at returned
    split at returned
    next result' shown =>
      obtain rfl := Option.some.inj returned
      obtain ⟨call, called, pc⟩ := Option.map_eq_some_iff.mp shown
      have own := matched.call c call called
      rw [Call.Matched, pc] at own
      obtain ⟨answer, member, caller, request, same⟩ := own
      exact ⟨answer, member, caller, by simp [requestOf, called, request], same⟩
    next => cases returned

/-- The process dies under the first call, and the second one comes in before it tries again. -/
def turnLabels : List (Label Unit) :=
  bothCalls
    ++ [.call 0 (.getOrCreate true), .call 0 .lock, .call 0 .write, .die 0, .read 0 0,
      .call 0 .receive, .call 0 (.restart true), .call 1 (.getOrCreate true), .call 1 .lock,
      .call 1 .write, .answer 1 (responseWith "b"), .read 1 1, .call 1 .receive, .call 0 .lock,
      .call 0 .write, .answer 1 (responseWith "a"), .read 1 0, .call 0 .receive]

theorem turns_answer_both
    : ∃ s, machine.Run Uncancelled fresh turnLabels s
        ∧ s.resultOf 0 = some (responseWith "a").result
        ∧ ∃ answer ∈ s.answers, answer.caller = 0
          ∧ s.requestOf 0 = some answer.request
          ∧ answer.response.result = (responseWith "a").result := by
  obtain ⟨s, run, tested⟩ := Lib.Machine.exists_run_of_exec machine fresh turnLabels
    (fun s => s.resultOf 0 = some (responseWith "a").result) (by decide)
  have turns : machine.Run Uncancelled fresh turnLabels s :=
    run.guarded (by simp [turnLabels, bothCalls, Uncancelled])
  have result := of_decide_eq_true tested
  exact ⟨s, turns, result,
    (uncancelled_calls_take_turns ⟨fresh, _, ⟨rfl, rfl, rfl, rfl, rfl⟩, turns⟩).2 0 _ result⟩

end Manager

end GoREgo.Persistent
