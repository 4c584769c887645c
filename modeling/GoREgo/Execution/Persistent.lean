import GoREgo.Lib.Machine
import GoREgo.Lib.Slots
import Mathlib.Logic.Function.Basic

/-! Persistent workers: `Execute` calls that share long-lived processes by key.
`getOrCreateWorker` and `restartWorker` hold the manager's mutex and are one step each. A
`sendRequest` holds the worker's mutex from its write to its return, and leaves a reader
goroutine behind when its context is done first. A reader takes a whole frame.
-/

namespace GoREgo.Persistent

structure Input where
  path : String
  digest : List UInt8
deriving DecidableEq

/-- The fields of a `WorkRequest` that `Execute` fills in. -/
structure WorkRequest where
  arguments : List String
  inputs : List Input
  cancel : Bool
deriving DecidableEq

structure WorkResponse where
  exitCode : Int
  output : String
  requestId : Int
  wasCancelled : Bool
deriving DecidableEq

structure WorkResult where
  exitCode : Int
  output : String
  requestId : Int
  wasCancelled : Bool
deriving DecidableEq

/-- The result that `sendRequest` makes of a response. -/
def WorkResponse.result (response : WorkResponse) : WorkResult where
  exitCode := response.exitCode
  output := response.output
  requestId := response.requestId
  wasCancelled := response.wasCancelled

/-- A request frame on a worker's stdin, with the call that wrote it. -/
structure Sent where
  caller : Nat
  request : WorkRequest
deriving DecidableEq

/-- A response frame on a worker's stdout, with the request that it answers. -/
structure Answer extends Sent where
  response : WorkResponse
deriving DecidableEq

/-- A `managedWorker`: its process, the manager's ends of its pipes with the frames in them,
the call that holds its mutex, and the calls whose reader goroutines read its stdout.
`processState` says after `Wait` whether the process exited by itself.
-/
structure ManagedWorker (Cmd : Type) where
  key : String
  cmd : Cmd
  running : Bool := true
  closed : Bool := false
  processState : Option Bool := none
  stdin : List Sent := []
  stdout : List Answer := []
  mu : Option Nat := none
  readers : List Nat := []

/-- The two `sendRequest`s that an `Execute` can make. -/
inductive Attempt
  | first | retry
deriving DecidableEq

/-- Why `sendRequest` fails: "failed to write request", the context's error, or "failed to read
response".
-/
inductive SendError
  | write | ctx | read
deriving DecidableEq

/-- Why a worker cannot be had: there is no command for its key, or it does not start. -/
inductive StartError
  | noCommand | notStarted
deriving DecidableEq

/-- Why `Execute` fails: "failed to get/create worker", "died and restart failed" or "failed
after restart".
-/
inductive ExecuteError
  | getOrCreate (cause : StartError)
  | restart (original : SendError) (cause : StartError)
  | afterRestart (cause : SendError)
deriving DecidableEq

/-- Where an `Execute` stands, with the worker that it has. `ch` holds what the reader goroutine
sent: an answer, or none for an error.
-/
inductive Pc
  | getOrCreate
  | locking (w : Nat) (attempt : Attempt)
  | writing (w : Nat) (attempt : Attempt)
  | waiting (w : Nat) (attempt : Attempt) (ch : Option (Option Answer))
  | restarting (w : Nat) (err : SendError)
  | returned (result : Except ExecuteError WorkResult)

structure Call (Cmd : Type) where
  key : String
  cmd : Option Cmd
  request : WorkRequest
  cancelled : Bool := false
  pc : Pc := .getOrCreate

def Pc.failed (w : Nat) (err : SendError) : Attempt → Pc
  | .first => .restarting w err
  | .retry => .returned (.error (.afterRestart err))

/-- The reader goroutine on `w` sends what it read; nobody listens once the call went on. -/
def Pc.deliver (w : Nat) (result : Option Answer) : Pc → Pc
  | .waiting w' attempt none =>
      if w' = w then .waiting w attempt (some result) else .waiting w' attempt none
  | pc => pc

/-- A manager with the workers ever started, the calls ever made and the answers ever given.
`workers` and `restart` are the maps of the manager.
-/
structure Manager (Cmd : Type) where
  workers : String → Option Nat
  restart : String → Option Cmd
  processes : List (ManagedWorker Cmd)
  calls : List (Call Cmd)
  answers : List Answer

namespace ManagedWorker

variable {Cmd : Type}

def close (p : ManagedWorker Cmd) : ManagedWorker Cmd :=
  { p with closed := true }

def stop (p : ManagedWorker Cmd) : ManagedWorker Cmd :=
  { p with closed := true, running := false, processState := some (!p.running) }

def serving (p : ManagedWorker Cmd) : Bool :=
  p.running && !p.closed

end ManagedWorker

namespace Manager

variable {Cmd : Type}

def go (s : Manager Cmd) (c : Nat) (call : Call Cmd) (pc : Pc) : Manager Cmd :=
  { s with calls := s.calls.set c { call with pc := pc } }

def put (s : Manager Cmd) (w : Nat) (p : ManagedWorker Cmd) : Manager Cmd :=
  { s with processes := s.processes.set w p }

/-- `startWorker` when the process starts, with the callers' write to the map. The command is
kept for restarts if there is none yet.
-/
def startWorker (s : Manager Cmd) (key : String) (cmd : Cmd) : Manager Cmd :=
  { s with
    workers := Function.update s.workers key (some s.processes.length)
    restart := Function.update s.restart key (some ((s.restart key).getD cmd))
    processes := s.processes ++ [{ key, cmd }] }

/-- The existing worker of a key, if its process is not known to have exited. -/
def existing (s : Manager Cmd) (key : String) : Option Nat :=
  (s.workers key).filter (fun w =>
    (s.processes[w]?).any (fun p => p.processState ≠ some true))

/-- The key's worker is closed in the way given and leaves the map. -/
def drop (s : Manager Cmd) (key : String)
    (ending : ManagedWorker Cmd → ManagedWorker Cmd)
    : Manager Cmd :=
  match s.workers key with
  | none => s
  | some w =>
      { s with
        workers := Function.update s.workers key none
        processes := s.processes.modify w ending }

/-- `getOrCreateWorker`; `starts` says whether a new process starts. -/
def getOrCreateWorker (s : Manager Cmd) (key : String) (cmd : Option Cmd) (starts : Bool)
    : Except StartError Nat × Manager Cmd :=
  match s.existing key with
  | some w => (.ok w, s)
  | none =>
      let s := s.drop key .close
      match cmd with
      | none => (.error .noCommand, s)
      | some cmd =>
          if starts then
            (.ok s.processes.length, s.startWorker key cmd)
          else
            (.error .notStarted, s)

/-- `restartWorker`; `starts` says whether the new process starts. -/
def restartWorker (s : Manager Cmd) (key : String) (starts : Bool)
    : Except StartError Nat × Manager Cmd :=
  let s := s.drop key .stop
  match s.restart key with
  | none => (.error .noCommand, s)
  | some cmd =>
      if starts then
        (.ok s.processes.length, s.startWorker key cmd)
      else
        (.error .notStarted, s)

def shutdown (s : Manager Cmd) : Manager Cmd :=
  { s with
    workers := fun _ => none
    processes :=
      s.processes.mapIdx (fun w p => if s.workers p.key = some w then p.stop else p) }

end Manager

inductive Action
  | cancel
  | getOrCreate (starts : Bool)
  | lock
  | write
  | contextDone
  | receive
  | restart (starts : Bool)

/-- Steps of calls, of reader goroutines, of workers and of the manager's other users. -/
inductive Label (Cmd : Type)
  | execute (key : String) (cmd : Option Cmd) (request : WorkRequest)
  | call (c : Nat) (action : Action)
  | read (w c : Nat)
  | answer (w : Nat) (response : WorkResponse)
  | die (w : Nat)
  | setRestartCommand (key : String) (cmd : Cmd)
  | shutdown

namespace Manager

variable {Cmd : Type}

def obtained (s : Manager Cmd) (c : Nat) (call : Call Cmd) (attempt : Attempt)
    (failed : StartError → ExecuteError)
    : Except StartError Nat → Manager Cmd
  | .ok w => s.go c call (.locking w attempt)
  | .error cause => s.go c call (.returned (.error (failed cause)))

def move (s : Manager Cmd) (c : Nat) (call : Call Cmd) : Action → Option (Manager Cmd)
  | .cancel => some { s with calls := s.calls.set c { call with cancelled := true } }
  | .getOrCreate starts =>
      match call.pc with
      | .getOrCreate =>
          let (got, s) := s.getOrCreateWorker call.key call.cmd starts
          some (s.obtained c call .first .getOrCreate got)
      | _ => none
  | .lock =>
      match call.pc with
      | .locking w attempt =>
          (s.processes[w]?).bind (fun p =>
            if p.mu = none then
              some ((s.put w { p with mu := some c }).go c call (.writing w attempt))
            else
              none)
      | _ => none
  | .write =>
      match call.pc with
      | .writing w attempt =>
          (s.processes[w]?).map (fun p =>
            if p.serving then
              (s.put w
                { p with
                  stdin := p.stdin ++ [{ caller := c, request := call.request }]
                  readers := p.readers ++ [c] }).go c call (.waiting w attempt none)
            else
              (s.put w { p with mu := none }).go c call (.failed w .write attempt))
      | _ => none
  | .contextDone =>
      match call.pc with
      | .waiting w attempt _ =>
          (s.processes[w]?).bind (fun p =>
            if call.cancelled then
              some ((s.put w { p with mu := none }).go c call (.failed w .ctx attempt))
            else
              none)
      | _ => none
  | .receive =>
      match call.pc with
      | .waiting w attempt (some result) =>
          (s.processes[w]?).map (fun p =>
            let s := s.put w { p with mu := none }
            match result with
            | none => s.go c call (.failed w .read attempt)
            | some answer => s.go c call (.returned (.ok answer.response.result)))
      | _ => none
  | .restart starts =>
      match call.pc with
      | .restarting _ err =>
          let (got, s) := s.restartWorker call.key starts
          some (s.obtained c call .retry (.restart err) got)
      | _ => none

/-- The reader goroutine of the call `c` on the worker `w` reads a frame, or fails: at once when
the pipe is closed, and at its end when the process is gone.
-/
def read (s : Manager Cmd) (w : Nat) (p : ManagedWorker Cmd) (c : Nat) (call : Call Cmd)
    : Option (Manager Cmd) :=
  if c ∉ p.readers then
    none
  else if p.closed then
    some ((s.put w { p with readers := p.readers.erase c }).go c call (call.pc.deliver w none))
  else
    match p.stdout with
    | answer :: rest =>
        some ((s.put w { p with readers := p.readers.erase c, stdout := rest }).go c call
          (call.pc.deliver w (some answer)))
    | [] =>
        if p.running then
          none
        else
          some ((s.put w { p with readers := p.readers.erase c }).go c call
            (call.pc.deliver w none))

def step (s : Manager Cmd) : Label Cmd → Option (Manager Cmd)
  | .execute key cmd request => some { s with calls := s.calls ++ [{ key, cmd, request }] }
  | .call c action => (s.calls[c]?).bind (fun call => s.move c call action)
  | .read w c =>
      (s.processes[w]?).bind (fun p => (s.calls[c]?).bind (fun call => s.read w p c call))
  | .answer w response =>
      (s.processes[w]?).bind (fun p =>
        if p.running then
          match p.stdin with
          | [] => none
          | sent :: rest =>
              let answer := { sent with response }
              some
                { s.put w { p with stdin := rest, stdout := p.stdout ++ [answer] } with
                  answers := s.answers ++ [answer] }
        else
          none)
  | .die w =>
      (s.processes[w]?).bind (fun p =>
        if p.running then some (s.put w { p with running := false }) else none)
  | .setRestartCommand key cmd =>
      some { s with restart := Function.update s.restart key (some cmd) }
  | .shutdown => some s.shutdown

def machine : Lib.Machine (Manager Cmd) (Label Cmd) where
  initial s :=
    s.workers = (fun _ => none) ∧ s.restart = (fun _ => none) ∧ s.processes = []
      ∧ s.calls = [] ∧ s.answers = []
  step := step

inductive Effect (s : Manager Cmd) : Label Cmd → Manager Cmd → Prop
  | execute {key cmd request}
    : Effect s (.execute key cmd request)
        { s with calls := s.calls ++ [{ key, cmd, request }] }
  | cancel {c call} (called : s.calls[c]? = some call)
    : Effect s (.call c .cancel)
        { s with calls := s.calls.set c { call with cancelled := true } }
  | found {c call starts w} (called : s.calls[c]? = some call) (asks : call.pc = .getOrCreate)
    (there : s.existing call.key = some w)
    : Effect s (.call c (.getOrCreate starts)) (s.go c call (.locking w .first))
  | created {c call cmd} (called : s.calls[c]? = some call) (asks : call.pc = .getOrCreate)
    (absent : s.existing call.key = none) (command : call.cmd = some cmd)
    : Effect s (.call c (.getOrCreate true))
        (((s.drop call.key .close).startWorker call.key cmd).go c call
          (.locking s.processes.length .first))
  | refused {c call starts cause} (called : s.calls[c]? = some call)
    (asks : call.pc = .getOrCreate) (absent : s.existing call.key = none)
    (without : call.cmd = none ∨ starts = false)
    : Effect s (.call c (.getOrCreate starts))
        ((s.drop call.key .close).go c call (.returned (.error (.getOrCreate cause))))
  | locked {c call w attempt p} (called : s.calls[c]? = some call)
    (wants : call.pc = .locking w attempt) (managed : s.processes[w]? = some p)
    (unlocked : p.mu = none)
    : Effect s (.call c .lock)
        ((s.put w { p with mu := some c }).go c call (.writing w attempt))
  | written {c call w attempt p} (called : s.calls[c]? = some call)
    (holds : call.pc = .writing w attempt) (managed : s.processes[w]? = some p)
    (serving : p.serving = true)
    : Effect s (.call c .write)
        ((s.put w
          { p with
            stdin := p.stdin ++ [{ caller := c, request := call.request }]
            readers := p.readers ++ [c] }).go c call (.waiting w attempt none))
  | unwritten {c call w attempt p} (called : s.calls[c]? = some call)
    (holds : call.pc = .writing w attempt) (managed : s.processes[w]? = some p)
    (serving : p.serving = false)
    : Effect s (.call c .write)
        ((s.put w { p with mu := none }).go c call (.failed w .write attempt))
  | gaveUp {c call w attempt ch p} (called : s.calls[c]? = some call)
    (waits : call.pc = .waiting w attempt ch) (managed : s.processes[w]? = some p)
    (cancelled : call.cancelled = true)
    : Effect s (.call c .contextDone)
        ((s.put w { p with mu := none }).go c call (.failed w .ctx attempt))
  | received {c call w attempt answer p} (called : s.calls[c]? = some call)
    (waits : call.pc = .waiting w attempt (some (some answer)))
    (managed : s.processes[w]? = some p)
    : Effect s (.call c .receive)
        ((s.put w { p with mu := none }).go c call (.returned (.ok answer.response.result)))
  | unreceived {c call w attempt p} (called : s.calls[c]? = some call)
    (waits : call.pc = .waiting w attempt (some none)) (managed : s.processes[w]? = some p)
    : Effect s (.call c .receive)
        ((s.put w { p with mu := none }).go c call (.failed w .read attempt))
  | restarted {c call w err cmd} (called : s.calls[c]? = some call)
    (asks : call.pc = .restarting w err) (command : s.restart call.key = some cmd)
    : Effect s (.call c (.restart true))
        (((s.drop call.key .stop).startWorker call.key cmd).go c call
          (.locking s.processes.length .retry))
  | unrestarted {c call starts w err cause} (called : s.calls[c]? = some call)
    (asks : call.pc = .restarting w err)
    (without : s.restart call.key = none ∨ starts = false)
    : Effect s (.call c (.restart starts))
        ((s.drop call.key .stop).go c call (.returned (.error (.restart err cause))))
  | read {w c p call answer rest} (managed : s.processes[w]? = some p)
    (called : s.calls[c]? = some call) (reads : c ∈ p.readers) (piped : p.closed = false)
    (next : p.stdout = answer :: rest)
    : Effect s (.read w c)
        ((s.put w { p with readers := p.readers.erase c, stdout := rest }).go c call
          (call.pc.deliver w (some answer)))
  | unread {w c p call} (managed : s.processes[w]? = some p)
    (called : s.calls[c]? = some call) (reads : c ∈ p.readers) (ended : p.serving = false)
    : Effect s (.read w c)
        ((s.put w { p with readers := p.readers.erase c }).go c call (call.pc.deliver w none))
  | answered {w p sent rest response} (managed : s.processes[w]? = some p)
    (running : p.running = true) (next : p.stdin = sent :: rest)
    : Effect s (.answer w response)
        { s.put w { p with stdin := rest, stdout := p.stdout ++ [{ sent with response }] } with
          answers := s.answers ++ [{ sent with response }] }
  | died {w p} (managed : s.processes[w]? = some p) (running : p.running = true)
    : Effect s (.die w) (s.put w { p with running := false })
  | registered {key cmd}
    : Effect s (.setRestartCommand key cmd)
        { s with restart := Function.update s.restart key (some cmd) }
  | shutdown : Effect s .shutdown s.shutdown

section Drop

variable (s : Manager Cmd) (key : String) (ending : ManagedWorker Cmd → ManagedWorker Cmd)

@[simp] theorem drop_calls : (s.drop key ending).calls = s.calls := by
  unfold drop
  split <;> rfl

@[simp] theorem drop_answers : (s.drop key ending).answers = s.answers := by
  unfold drop
  split <;> rfl

@[simp] theorem drop_restart : (s.drop key ending).restart = s.restart := by
  unfold drop
  split <;> rfl

@[simp] theorem drop_length
    : (s.drop key ending).processes.length = s.processes.length := by
  unfold drop
  split
  next => rfl
  next => exact List.length_modify ..

@[simp] theorem drop_workers
    : (s.drop key ending).workers = Function.update s.workers key none := by
  unfold drop
  split
  next absent => rw [← absent, Function.update_eq_self]
  next => rfl

end Drop

variable {s s' : Manager Cmd}

theorem effect_of_move {c : Nat} {call : Call Cmd} (called : s.calls[c]? = some call)
    {action : Action} (taken : s.move c call action = some s')
    : Effect s (.call c action) s' := by
  cases action with
  | cancel =>
      obtain rfl := Option.some.inj taken
      exact .cancel called
  | getOrCreate starts =>
      cases asks : call.pc <;> simp only [move, asks, reduceCtorEq] at taken
      obtain rfl := Option.some.inj taken
      unfold getOrCreateWorker
      split
      next w there => exact .found called asks there
      next absent =>
        split
        next without => exact .refused called asks absent (.inl without)
        next cmd command =>
          cases starts with
          | false => exact .refused called asks absent (.inr rfl)
          | true =>
              simp only [if_true, drop_length]
              exact .created called asks absent command
  | lock =>
      cases wants : call.pc <;> simp only [move, wants, reduceCtorEq] at taken
      obtain ⟨p, managed, taken⟩ := Option.bind_eq_some_iff.mp taken
      split at taken
      next unlocked =>
        obtain rfl := Option.some.inj taken
        exact .locked called wants managed unlocked
      next => cases taken
  | write =>
      cases holds : call.pc <;> simp only [move, holds, reduceCtorEq] at taken
      obtain ⟨p, managed, rfl⟩ := Option.map_eq_some_iff.mp taken
      split
      next serving => exact .written called holds managed serving
      next dead => exact .unwritten called holds managed (Bool.eq_false_iff.mpr dead)
  | contextDone =>
      cases waits : call.pc <;> simp only [move, waits, reduceCtorEq] at taken
      obtain ⟨p, managed, taken⟩ := Option.bind_eq_some_iff.mp taken
      split at taken
      next cancelled =>
        obtain rfl := Option.some.inj taken
        exact .gaveUp called waits managed cancelled
      next => cases taken
  | receive =>
      cases waits : call.pc with
      | waiting w attempt ch =>
          cases ch with
          | none => simp [move, waits] at taken
          | some result =>
              simp only [move, waits] at taken
              obtain ⟨p, managed, rfl⟩ := Option.map_eq_some_iff.mp taken
              cases result with
              | none => exact .unreceived called waits managed
              | some answer => exact .received called waits managed
      | _ => simp [move, waits] at taken
  | restart starts =>
      cases asks : call.pc <;> simp only [move, asks, reduceCtorEq] at taken
      obtain rfl := Option.some.inj taken
      unfold restartWorker
      simp only [drop_restart]
      split
      next without => exact .unrestarted called asks (.inl without)
      next cmd command =>
        cases starts with
        | false => exact .unrestarted called asks (.inr rfl)
        | true =>
            simp only [if_true, drop_length]
            exact .restarted called asks command

theorem effect_of_read {w c : Nat} {p : ManagedWorker Cmd} {call : Call Cmd}
    (managed : s.processes[w]? = some p) (called : s.calls[c]? = some call)
    (taken : s.read w p c call = some s')
    : Effect s (.read w c) s' := by
  unfold read at taken
  split at taken
  next => cases taken
  next reads =>
    have reads := not_not.mp reads
    split at taken
    next closed =>
      obtain rfl := Option.some.inj taken
      exact .unread managed called reads (by simp [ManagedWorker.serving, closed])
    next piped =>
      split at taken
      next answer rest next =>
        obtain rfl := Option.some.inj taken
        exact .read managed called reads (Bool.eq_false_iff.mpr piped) next
      next =>
        split at taken
        next => cases taken
        next dead =>
          obtain rfl := Option.some.inj taken
          exact .unread managed called reads
            (by simp [ManagedWorker.serving, Bool.eq_false_iff.mpr dead])

theorem effect_of_step {label : Label Cmd} (taken : s.step label = some s')
    : Effect s label s' := by
  cases label with
  | execute key cmd request =>
      obtain rfl := Option.some.inj taken
      exact .execute
  | call c action =>
      obtain ⟨call, called, taken⟩ := Option.bind_eq_some_iff.mp taken
      exact effect_of_move called taken
  | read w c =>
      obtain ⟨p, managed, taken⟩ := Option.bind_eq_some_iff.mp taken
      obtain ⟨call, called, taken⟩ := Option.bind_eq_some_iff.mp taken
      exact effect_of_read managed called taken
  | answer w response =>
      obtain ⟨p, managed, taken⟩ := Option.bind_eq_some_iff.mp taken
      split at taken
      next running =>
        split at taken
        next => cases taken
        next sent rest next =>
          obtain rfl := Option.some.inj taken
          exact .answered managed running next
      next => cases taken
  | die w =>
      obtain ⟨p, managed, taken⟩ := Option.bind_eq_some_iff.mp taken
      split at taken
      next running =>
        obtain rfl := Option.some.inj taken
        exact .died managed running
      next => cases taken
  | setRestartCommand key cmd =>
      obtain rfl := Option.some.inj taken
      exact .registered
  | shutdown =>
      obtain rfl := Option.some.inj taken
      exact .shutdown

end Manager

end GoREgo.Persistent
