import GoREgo.Execution.Persistent

/-! Which answer an `Execute` returns. A worker answers in order and a call writes before it
reads, so the answers match as long as a request is written only to a worker on which no earlier
call has left a request, an answer or a reader.
-/

namespace GoREgo.Persistent

variable {Cmd : Type}

structure ManagedWorker.Matched (requests : Nat → Option WorkRequest) (answers : List Answer)
    (p : ManagedWorker Cmd) : Prop where
  sent : ∀ sent ∈ p.stdin, requests sent.caller = some sent.request
  answered
    : ∀ answer ∈ p.stdout, answer ∈ answers ∧ requests answer.caller = some answer.request
  read
    : ∀ c ∈ p.readers,
        (∀ sent ∈ p.stdin, sent.caller = c) ∧ ∀ answer ∈ p.stdout, answer.caller = c

def Call.Matched (answers : List Answer) (c : Nat) (call : Call Cmd) : Prop :=
  match call.pc with
  | .waiting _ _ (some (some answer)) =>
      answer ∈ answers ∧ answer.caller = c ∧ answer.request = call.request
  | .returned (.ok result) =>
      ∃ answer ∈ answers, answer.caller = c ∧ answer.request = call.request
        ∧ answer.response.result = result
  | _ => True

def ManagedWorker.drained (p : ManagedWorker Cmd) : Bool :=
  p.stdin.isEmpty && p.stdout.isEmpty && p.readers.isEmpty

theorem ManagedWorker.Matched.mono {requests requests' : Nat → Option WorkRequest}
    {answers answers' : List Answer} {p : ManagedWorker Cmd}
    (matched : p.Matched requests answers)
    (calls : ∀ c request, requests c = some request → requests' c = some request)
    (more : answers ⊆ answers')
    : p.Matched requests' answers' where
  sent sent member := calls _ _ (matched.sent sent member)
  answered answer member :=
    ⟨more (matched.answered answer member).1, calls _ _ (matched.answered answer member).2⟩
  read := matched.read

theorem Call.Matched.mono {answers answers' : List Answer} {c : Nat} {call : Call Cmd}
    (matched : call.Matched answers c) (more : answers ⊆ answers')
    : call.Matched answers' c := by
  revert matched
  unfold Call.Matched
  split
  next =>
    rintro ⟨member, own⟩
    exact ⟨more member, own⟩
  next =>
    rintro ⟨answer, member, own⟩
    exact ⟨answer, more member, own⟩
  next => exact id

theorem Call.Matched.deliver {answers : List Answer} {c : Nat} {call : Call Cmd}
    (matched : call.Matched answers c) (w : Nat) {result : Option Answer}
    (own
      : ∀ answer, result = some answer →
          answer ∈ answers ∧ answer.caller = c ∧ answer.request = call.request)
    : Call.Matched answers c { call with pc := call.pc.deliver w result } := by
  cases at_ : call.pc with
  | waiting w' attempt ch =>
      cases ch with
      | some sent => simpa [Call.Matched, Pc.deliver, at_] using matched
      | none =>
          simp only [Pc.deliver]
          split
          next =>
            cases result with
            | none => trivial
            | some answer => exact own answer rfl
          next => trivial
  | returned result => simpa [Call.Matched, Pc.deliver, at_] using matched
  | getOrCreate | locking | writing | restarting => trivial

theorem Call.matched_failed (answers : List Answer) (c : Nat) (call : Call Cmd) (w : Nat)
    (err : SendError) (attempt : Attempt)
    : Call.Matched answers c { call with pc := .failed w err attempt } := by
  cases attempt <;> trivial

namespace Manager

def requestOf (s : Manager Cmd) (c : Nat) : Option WorkRequest :=
  (s.calls[c]?).map Call.request

structure Matched (s : Manager Cmd) : Prop where
  worker
    : ∀ (w : Nat) (p : ManagedWorker Cmd), s.processes[w]? = some p →
        p.Matched s.requestOf s.answers
  call
    : ∀ (c : Nat) (call : Call Cmd), s.calls[c]? = some call → call.Matched s.answers c

variable {s s' : Manager Cmd} {w c : Nat} {p p' : ManagedWorker Cmd} {call : Call Cmd}

theorem requestOf_set (called : s.calls[c]? = some call) {call' : Call Cmd}
    (same : call'.request = call.request)
    : ({ s with calls := s.calls.set c call' } : Manager Cmd).requestOf = s.requestOf := by
  funext other
  by_cases moved : other = c
  · subst moved
    simp [requestOf, Lib.getElem?_set_of_some called, called, same]
  · simp [requestOf, List.getElem?_set_ne (Ne.symm moved)]

theorem Matched.setCall (matched : s.Matched) (called : s.calls[c]? = some call)
    {call' : Call Cmd} (same : call'.request = call.request)
    (matches_ : call'.Matched s.answers c)
    : ({ s with calls := s.calls.set c call' } : Manager Cmd).Matched where
  worker w p managed := by
    rw [requestOf_set called same]
    exact matched.worker w p managed
  call other found shown := by
    rcases Lib.getElem?_set_cases shown with ⟨rfl, rfl⟩ | ⟨-, before⟩
    · exact matches_
    · exact matched.call other found before

theorem Matched.go (matched : s.Matched) (called : s.calls[c]? = some call) {pc : Pc}
    (matches_ : Call.Matched s.answers c { call with pc := pc })
    : (s.go c call pc).Matched :=
  matched.setCall called rfl matches_

theorem Matched.put (matched : s.Matched) (matches_ : p.Matched s.requestOf s.answers)
    : (s.put w p).Matched where
  worker other found shown := by
    rcases Lib.getElem?_set_cases shown with ⟨rfl, rfl⟩ | ⟨-, before⟩
    · exact matches_
    · exact matched.worker other found before
  call := matched.call

theorem Matched.putGo (matched : (s.put w p).Matched) (called : s.calls[c]? = some call)
    {pc : Pc} (matches_ : Call.Matched s.answers c { call with pc := pc })
    : ((s.put w p).go c call pc).Matched :=
  matched.go called matches_

theorem Matched.keep (matched : s.Matched) (managed : s.processes[w]? = some p)
    (stdin : p'.stdin = p.stdin) (stdout : p'.stdout = p.stdout)
    (readers : p'.readers ⊆ p.readers)
    : (s.put w p').Matched := by
  have kept := matched.worker w p managed
  refine matched.put ⟨?_, ?_, ?_⟩
  · rw [stdin]
    exact kept.sent
  · rw [stdout]
    exact kept.answered
  · rw [stdin, stdout]
    exact fun c member => kept.read c (readers member)

theorem Matched.drop (matched : s.Matched) {key : String}
    {ending : ManagedWorker Cmd → ManagedWorker Cmd}
    (ends : ∀ p, p.Matched s.requestOf s.answers → (ending p).Matched s.requestOf s.answers)
    : (s.drop key ending).Matched := by
  unfold Manager.drop
  split
  next => exact matched
  next w current =>
    refine ⟨fun other found shown => ?_, matched.call⟩
    rw [List.getElem?_modify] at shown
    obtain ⟨before, managed, rfl⟩ := Option.map_eq_some_iff.mp shown
    have kept := matched.worker other before managed
    split
    next => exact ends before kept
    next => exact kept

theorem Matched.startWorker (matched : s.Matched) (key : String) (cmd : Cmd)
    : (s.startWorker key cmd).Matched where
  worker other found shown := by
    rcases Lib.getElem?_snoc_cases shown with ⟨-, rfl⟩ | ⟨-, before⟩
    · exact ⟨List.forall_mem_nil _, List.forall_mem_nil _, List.forall_mem_nil _⟩
    · exact matched.worker other found before
  call := matched.call

theorem Matched.shutdown (matched : s.Matched) : s.shutdown.Matched where
  worker other found shown := by
    obtain ⟨before, managed, rfl⟩ := Option.map_eq_some_iff.mp (List.getElem?_mapIdx ▸ shown)
    have kept := matched.worker other before managed
    split
    next => exact ⟨kept.sent, kept.answered, kept.read⟩
    next => exact kept
  call := matched.call

def writesTo (s : Manager Cmd) (c : Nat) : Option (ManagedWorker Cmd) :=
  match (s.calls[c]?).map Call.pc with
  | some (.writing w _) => s.processes[w]?
  | _ => none

/-- A request is written to a running worker only when it is drained. -/
def Drained (s : Manager Cmd) : Label Cmd → Prop
  | .call c .write => ∀ p ∈ s.writesTo c, p.serving = true → p.drained = true
  | _ => True

theorem Matched.execute (matched : s.Matched) (call : Call Cmd) (asks : call.pc = .getOrCreate)
    : ({ s with calls := s.calls ++ [call] } : Manager Cmd).Matched where
  worker w p managed := by
    refine (matched.worker w p managed).mono (fun c request before => ?_) (List.Subset.refl _)
    obtain ⟨earlier, called, rfl⟩ := Option.map_eq_some_iff.mp before
    simp [requestOf, Lib.getElem?_snoc_of_some called]
  call c found shown := by
    rcases Lib.getElem?_snoc_cases shown with ⟨-, rfl⟩ | ⟨-, before⟩
    · simp [Call.Matched, asks]
    · exact matched.call c found before

theorem Matched.written (matched : s.Matched) (called : s.calls[c]? = some call)
    (drained : p.drained = true)
    : (s.put w
        { p with
          stdin := p.stdin ++ [{ caller := c, request := call.request }]
          readers := p.readers ++ [c] }).Matched := by
  simp only [ManagedWorker.drained, Bool.and_eq_true, List.isEmpty_iff] at drained
  obtain ⟨⟨stdin, stdout⟩, readers⟩ := drained
  refine matched.put ⟨?_, ?_, ?_⟩
  · simp [stdin, requestOf, called]
  · simp [stdout]
  · simp [stdin, stdout, readers]

theorem Matched.read (matched : s.Matched) (managed : s.processes[w]? = some p)
    (called : s.calls[c]? = some call) (reads : c ∈ p.readers) {answer : Answer}
    {rest : List Answer} (next : p.stdout = answer :: rest)
    : ((s.put w { p with readers := p.readers.erase c, stdout := rest }).go c call
        (call.pc.deliver w (some answer))).Matched := by
  have kept := matched.worker w p managed
  have member : answer ∈ p.stdout := by simp [next]
  have later : rest ⊆ p.stdout := by simp [next]
  refine Matched.putGo ?_ called ?_
  · refine matched.put ⟨kept.sent, ?_, ?_⟩
    · exact fun answer member => kept.answered answer (later member)
    · intro reader reads
      obtain ⟨sent, answered⟩ := kept.read reader (List.mem_of_mem_erase reads)
      exact ⟨sent, fun answer member => answered answer (later member)⟩
  · refine (matched.call c call called).deliver w (fun found same => ?_)
    obtain rfl := Option.some.inj same
    obtain ⟨given, request⟩ := kept.answered answer member
    obtain rfl := (kept.read c reads).2 answer member
    rw [requestOf, called] at request
    exact ⟨given, rfl, (Option.some.inj request).symm⟩

theorem Matched.answered (matched : s.Matched) (managed : s.processes[w]? = some p)
    {sent : Sent} {rest : List Sent} (next : p.stdin = sent :: rest) (response : WorkResponse)
    : ({ s.put w
          { p with stdin := rest, stdout := p.stdout ++ [{ sent with response }] } with
        answers := s.answers ++ [{ sent with response }] } : Manager Cmd).Matched := by
  have more : s.answers ⊆ s.answers ++ [{ sent with response }] := by simp
  have kept := (matched.worker w p managed).mono (fun _ _ => id) more
  have member : sent ∈ p.stdin := by simp [next]
  have later : rest ⊆ p.stdin := by simp [next]
  refine ⟨fun other found shown => ?_, fun c call called => (matched.call c call called).mono more⟩
  rcases Lib.getElem?_set_cases shown with ⟨rfl, rfl⟩ | ⟨-, before⟩
  · refine ⟨fun sent member => kept.sent sent (later member), ?_, fun c reads => ⟨?_, ?_⟩⟩
    · intro answer given
      rcases List.mem_append.mp given with before | new
      · exact kept.answered answer before
      · obtain rfl := List.mem_singleton.mp new
        exact ⟨by simp, kept.sent sent member⟩
    · exact fun sent member => (kept.read c reads).1 sent (later member)
    · intro answer given
      rcases List.mem_append.mp given with before | new
      · exact (kept.read c reads).2 answer before
      · obtain rfl := List.mem_singleton.mp new
        exact (kept.read c reads).1 sent member
  · exact (matched.worker other found before).mono (fun _ _ => id) more

/-- Drained workers keep every answer with its request, step by step. -/
theorem matched_inductive : (machine : Lib.Machine (Manager Cmd) (Label Cmd)).Inductive Drained Matched where
  start s initial := by
    obtain ⟨-, -, processes, calls, -⟩ := initial
    exact ⟨by simp [processes], by simp [calls]⟩
  keeps s label s' matched drained taken := by
    have dropped : ∀ key ending, ending = ManagedWorker.close ∨ ending = ManagedWorker.stop →
        (s.drop key ending).Matched := by
      rintro key ending (rfl | rfl) <;>
        exact matched.drop (fun p kept => ⟨kept.sent, kept.answered, kept.read⟩)
    cases effect_of_step taken with
    | execute => exact matched.execute _ rfl
    | cancel called => exact matched.setCall called rfl (matched.call _ _ called :)
    | found called => exact matched.go called trivial
    | created called =>
        refine Matched.go ((dropped _ _ (.inl rfl)).startWorker _ _) ?_ trivial
        rwa [← s.drop_calls] at called
    | refused called =>
        refine (dropped _ _ (.inl rfl)).go ?_ trivial
        rwa [drop_calls]
    | locked called _ managed =>
        refine Matched.putGo ?_ called trivial
        exact matched.keep managed rfl rfl (List.Subset.refl _)
    | @written c call w attempt p called holds managed serving =>
        refine (matched.written called (drained p ?_ serving)).putGo called trivial
        simp [writesTo, called, holds, managed]
    | unwritten called _ managed | gaveUp called _ managed | unreceived called _ managed =>
        refine Matched.putGo ?_ called (Call.matched_failed ..)
        exact matched.keep managed rfl rfl (List.Subset.refl _)
    | received called waits managed =>
        refine Matched.putGo ?_ called ?_
        · exact matched.keep managed rfl rfl (List.Subset.refl _)
        · have own := matched.call _ _ called
          rw [Call.Matched, waits] at own
          exact ⟨_, own.1, own.2.1, own.2.2, rfl⟩
    | restarted called =>
        refine Matched.go ((dropped _ _ (.inr rfl)).startWorker _ _) ?_ trivial
        rwa [← s.drop_calls] at called
    | unrestarted called =>
        refine (dropped _ _ (.inr rfl)).go ?_ trivial
        rwa [drop_calls]
    | read managed called reads _ next => exact matched.read managed called reads next
    | unread managed called =>
        refine Matched.putGo ?_ called ?_
        · exact matched.keep managed rfl rfl List.erase_subset
        · exact (matched.call _ _ called).deliver _ (fun _ => nofun)
    | answered managed _ next => exact matched.answered managed next _
    | died managed => exact matched.keep managed rfl rfl (by simp)
    | registered => exact ⟨matched.worker, matched.call⟩
    | shutdown => exact matched.shutdown

def resultOf (s : Manager Cmd) (c : Nat) : Option WorkResult :=
  match (s.calls[c]?).map Call.pc with
  | some (.returned (.ok result)) => some result
  | _ => none

/-- While requests are written to drained workers only, the result that an `Execute` returns is
the answer that a worker gave to this call's request.
-/
theorem drained_answers_match (reached : machine.Reachable Drained s) {result : WorkResult}
    (returned : s.resultOf c = some result)
    : ∃ answer ∈ s.answers, answer.caller = c ∧ s.requestOf c = some answer.request
        ∧ answer.response.result = result := by
  unfold resultOf at returned
  split at returned
  next result' shown =>
    obtain rfl := Option.some.inj returned
    obtain ⟨call, called, pc⟩ := Option.map_eq_some_iff.mp shown
    have own := (matched_inductive.reachable reached).call c call called
    rw [Call.Matched, pc] at own
    obtain ⟨answer, member, caller, request, same⟩ := own
    exact ⟨answer, member, caller, by simp [requestOf, called, request], same⟩
  next => cases returned

instance (s : Manager Cmd) (label : Label Cmd) : Decidable (Drained s label) := by
  unfold Drained
  split <;> infer_instance

def fresh : Manager Unit where
  workers _ := none
  restart _ := none
  processes := []
  calls := []
  answers := []

def requestFor (argument : String) : WorkRequest where
  arguments := [argument]
  inputs := []
  cancel := false

def responseWith (output : String) : WorkResponse where
  exitCode := 0
  output := output
  requestId := 0
  wasCancelled := false

def bothCalls : List (Label Unit) :=
  [.execute "javac" (some ()) (requestFor "A"), .execute "javac" (some ()) (requestFor "B")]

/-- The first call gives up, the reader that it leaves takes the late answer, and the second
call gets its own one.
-/
def drainedLabels : List (Label Unit) :=
  bothCalls
    ++ [.call 0 (.getOrCreate true), .call 0 .lock, .call 0 .write, .call 1 (.getOrCreate true),
      .call 0 .cancel, .call 0 .contextDone, .answer 0 (responseWith "a"), .read 0 0,
      .call 1 .lock, .call 1 .write, .answer 0 (responseWith "b"), .read 0 1, .call 1 .receive]

/-- On a drained worker the second call gets the answer to its request. -/
theorem drained_answer_matches
    : ∃ s, machine.Run Drained fresh drainedLabels s
        ∧ ∃ answer ∈ s.answers, answer.caller = 1
          ∧ s.requestOf 1 = some answer.request
          ∧ answer.response.result = (responseWith "b").result := by
  obtain ⟨s, run, tested⟩ := Lib.Machine.exists_run_of_execIf machine Drained fresh
    drainedLabels (fun s => s.resultOf 1 = some (responseWith "b").result) (by decide)
  exact ⟨s, run, drained_answers_match ⟨fresh, _, ⟨rfl, rfl, rfl, rfl, rfl⟩, run⟩
    (of_decide_eq_true tested)⟩

/-- The first call gives up, also on the worker that it restarted, and leaves its request there.
The second call writes behind it and its reader comes first.
-/
def abandonedLabels : List (Label Unit) :=
  bothCalls
    ++ [.call 0 (.getOrCreate true), .call 0 .lock, .call 0 .write, .call 0 .cancel,
      .call 0 .contextDone, .call 0 (.restart true), .call 0 .lock, .call 0 .write,
      .call 0 .contextDone, .call 1 (.getOrCreate true), .call 1 .lock, .call 1 .write,
      .answer 1 (responseWith "a"), .read 1 1, .call 1 .receive]

/-- The second call returns the answer to the first call's request, and its own request has not
been answered.
-/
theorem abandoned_request_answers_next_call
    : ∃ s, machine.Run Lib.Machine.anyStep fresh abandonedLabels s
        ∧ s.resultOf 1 = some (responseWith "a").result
        ∧ s.answers = [{ caller := 0, request := requestFor "A", response := responseWith "a" }]
        ∧ s.requestOf 1 = some (requestFor "B") := by
  obtain ⟨s, run, tested⟩ := Lib.Machine.exists_run_of_exec machine fresh abandonedLabels
    (fun s => s.resultOf 1 = some (responseWith "a").result
      ∧ s.answers = [{ caller := 0, request := requestFor "A", response := responseWith "a" }]
      ∧ s.requestOf 1 = some (requestFor "B")) (by decide)
  exact ⟨s, run, of_decide_eq_true tested⟩

end Manager

end GoREgo.Persistent
