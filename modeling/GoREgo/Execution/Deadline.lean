import GoREgo.Execution.Outputs
import GoREgo.Execution.Terminal

/-! A command under its deadline: `runCommand` from the start of the process on, the rest of
`execute`, and what the scheduler reports once the worker has finished its task.
`os/exec` prefers the error of the process to the error of the context. A process that the
expired context killed therefore comes back as an `ExitError`, which `runCommand` tests first,
and the operation completes with the exit code -1.
-/

namespace GoREgo.Worker

open Lib Scheduler

structure Duration where
  seconds : Int
  nanos : Int
deriving DecidableEq, Repr

/-- `AsDuration`: nanoseconds in 64 bits, and the nearest bound where they overflow. -/
def Duration.asDuration (x : Duration) : Int :=
  let whole := (x.seconds * 10 ^ 9).bmod (2 ^ 64)
  let d := (whole + x.nanos).bmod (2 ^ 64)
  if whole.tdiv (10 ^ 9) ≠ x.seconds
      ∨ (x.seconds < 0 ∧ x.nanos < 0 ∧ 0 < d) ∨ (0 < x.seconds ∧ 0 < x.nanos ∧ d < 0) then
    if x.seconds < 0 then -2 ^ 63 else if 0 < x.seconds then 2 ^ 63 - 1 else d
  else
    d

def defaultTimeout : Int := 600 * 10 ^ 9

def cmdTimeout (timeout : Option Duration) : Int :=
  match timeout with
  | none => defaultTimeout
  | some timeout => timeout.asDuration

inductive WaitStatus
  | exited (code : Fin 256)
  | signaled (signal : Nat)
deriving DecidableEq, Repr

def WaitStatus.exitCode : WaitStatus → Int
  | .exited code => code.val
  | .signaled _ => -1

/-- The signal of `Process.Kill`. -/
def sigkill : Nat := 9

/-- What the goroutine that watches the context tells `Wait`: nothing where the process was done
first, that it killed the process, or that it could not.
-/
inductive Watch
  | idle
  | killed
  | failed (err : GoError)
deriving DecidableEq, Repr

/-- The course of `cmd.Run`: `Start` fails, or finds the context done, or the process ends and
`Wait` collects it. Copying what the process prints can fail as well.
-/
inductive Course
  | refused (err : GoError)
  | expired
  | ended (status : WaitStatus) (collectedAt : Int) (watch : Watch) (copyError : Option GoError)
deriving DecidableEq, Repr

/-- One run of a command. Times count from the moment at which the context is made; its timer
fires at `expiry`, never early, and only then `Start` finds it done or the watcher acts.
`checkedAt` is when `runCommand` looks at the error.
-/
structure Attempt (timeout : Option Duration) where
  course : Course
  stdout : Bytes
  stderr : Bytes
  expiry : Int
  checkedAt : Int
  notEarly : cmdTimeout timeout ≤ expiry
  late : course = .expired → expiry ≤ checkedAt
  watched : ∀ status collectedAt watch copyError,
    course = .ended status collectedAt watch copyError → watch ≠ .idle → expiry ≤ collectedAt

/-- The error of `cmd.Run`: an `*exec.ExitError`, or some other one. -/
inductive RunError
  | exit (status : WaitStatus)
  | other (err : GoError)
deriving DecidableEq, Repr

def contextDeadlineExceeded : GoError := .plain "context deadline exceeded"

/-- The error of `cmd.Run`. `Wait` prefers the state of the process to what the watcher says,
and that to a problem with copying.
-/
def Course.error : Course → Option RunError
  | .refused err => some (.other err)
  | .expired => some (.other contextDeadlineExceeded)
  | .ended status _ watch copyError =>
      if status ≠ .exited 0 then
        some (.exit status)
      else
        match watch with
        | .killed => some (.other contextDeadlineExceeded)
        | .failed err => some (.other (.wrap "exec: canceling Cmd" err))
        | .idle => copyError.map .other

variable {timeout : Option Duration}

/-- `runCommand`, once the command is in place. -/
def Attempt.runCommand (attempt : Attempt timeout) : Except GoError ExecResult :=
  match attempt.course.error with
  | none => .ok { exitCode := 0, stdout := attempt.stdout, stderr := attempt.stderr }
  | some (.exit status) =>
      .ok { exitCode := status.exitCode, stdout := attempt.stdout, stderr := attempt.stderr }
  | some (.other err) =>
      if attempt.expiry ≤ attempt.checkedAt then
        .error (.status .deadlineExceeded "command timed out")
      else
        .error (.wrap "command failed" err)

/-- The blob store, and the results given to the action cache, latest first. -/
structure Stores where
  blobs : Blobs
  written : List (Digest × ActionResult)
deriving DecidableEq, Repr

/-- `execute` from the start of the process on. An error of the action cache is dropped. -/
def Uploader.execute (w : Uploader) (execRoot : Path) (command : Command) (task : Task)
    (attempt : Attempt timeout) (stores : Stores)
    : Except GoError ActionResult × Stores :=
  match attempt.runCommand with
  | .error err => (.error (.wrap "failed to execute command" err), stores)
  | .ok execResult =>
      match w.uploadOutputs execRoot command execResult stores.blobs with
      | .error err blobs =>
          (.error (.wrap "failed to upload outputs" err), { stores with blobs := blobs })
      | .ok result blobs =>
          if result.exitCode = 0 ∧ task.skipCache = false then
            (.ok result,
              { blobs := blobs, written := (task.actionDigest, result) :: stores.written })
          else
            (.ok result, { stores with blobs := blobs })

namespace Uploader

variable {w : Uploader} {s : Blobs} {out : Outputs}

def Carries (code : Int) (program : UploadM Outputs) (s : Blobs) : Prop :=
  Ends program (fun out _ => out.result.exitCode = code) (fun _ _ => True) s

theorem addFile_carries (fullPath : Path) (outputPath : String) (place : Path) (info : Node)
    : Carries out.result.exitCode (w.blobs.addFile fullPath outputPath place info out) s :=
  Ends.bind_any (fun _ _ => Ends.bind_any (fun _ _ => Ends.pure rfl))

theorem addDirectory_carries (fullPath : Path) (outputPath : String)
    : Carries out.result.exitCode (w.blobs.addDirectory fullPath outputPath out) s :=
  Ends.bind_any (fun _ _ => Ends.bind_any (fun _ _ => Ends.bind_any (fun _ _ => Ends.pure rfl)))

variable (workDir : Path) (command : Command)

theorem uploadOutputFile_carries (outputPath : String)
    : Carries out.result.exitCode (w.blobs.uploadOutputFile workDir command out outputPath)
        s := by
  unfold Outlet.uploadOutputFile
  dsimp only
  split
  · exact Ends.pure rfl
  · exact Ends.throw (α := Outputs) trivial
  · exact addFile_carries ..

theorem uploadOutputDirectory_carries (outputPath : String)
    : Carries out.result.exitCode (w.blobs.uploadOutputDirectory workDir command out outputPath)
        s := by
  unfold Outlet.uploadOutputDirectory
  dsimp only
  split
  · exact Ends.pure rfl
  · exact addDirectory_carries ..

theorem uploadOutputPath_carries (outputPath : String)
    : Carries out.result.exitCode (w.blobs.uploadOutputPath workDir command out outputPath)
        s := by
  unfold Outlet.uploadOutputPath
  dsimp only
  split
  · exact Ends.pure rfl
  · exact Ends.throw (α := Outputs) trivial
  · exact addDirectory_carries ..
  · exact addFile_carries ..

theorem Carries.loop {body : Outputs → String → UploadM Outputs}
    (each : ∀ out outputPath s, Carries out.result.exitCode (body out outputPath) s)
    (outputs : List String)
    : Carries out.result.exitCode (outputs.foldlM body out) s := by
  refine Ends.foldlM
    (fun _ (value : Outputs) _ => value.result.exitCode = out.result.exitCode) rfl ?_
  intro outputPath rest value s same
  rw [← same]
  exact each value outputPath s

theorem bmod_exitCode (code : Fin 256) : (code.val : Int).bmod (2 ^ 32) = code.val := by
  have bound := code.isLt
  apply Int.bmod_eq_of_le
  · simp only [Nat.reducePow]
    omega
  · simp only [Nat.reducePow]
    omega

theorem buildOutputs_carries (execResult : ExecResult)
    : Carries (execResult.exitCode.bmod (2 ^ 32))
        (w.blobs.buildOutputs workDir command execResult) s := by
  refine Ends.bind_any (fun stdoutDigest s => Ends.bind_any (fun stderrDigest s => ?_))
  refine Ends.bind (Ends.imp
    (Carries.loop (fun _ output _ => uploadOutputFile_carries workDir command output) _) ?_)
  intro out s same
  refine Ends.bind (Ends.imp
    (Carries.loop (fun _ output _ => uploadOutputDirectory_carries workDir command output) _) ?_)
  intro out' s same'
  refine Ends.imp
    (Carries.loop (fun _ output _ => uploadOutputPath_carries workDir command output) _) ?_
  exact fun _ _ last => last.trans (same'.trans same)

theorem exitCode_of_uploadOutputs {execResult : ExecResult} {result : ActionResult} {s' : Blobs}
    (uploaded : w.uploadOutputs workDir command execResult s = .ok result s')
    : result.exitCode = execResult.exitCode.bmod (2 ^ 32) := by
  have carries : Ends (w.uploadOutputs workDir command execResult)
      (fun result _ => result.exitCode = execResult.exitCode.bmod (2 ^ 32)) (fun _ _ => True) s :=
    Ends.bind (Ends.imp (buildOutputs_carries workDir command execResult)
      (fun _ _ same => Ends.pure same))
  exact carries.of_eq_ok uploaded

end Uploader

namespace Course

variable {status : WaitStatus} {collectedAt : Int} {watch : Watch} {copyError : Option GoError}

theorem error_of_failed (failed : status ≠ .exited 0)
    : (ended status collectedAt watch copyError).error = some (.exit status) :=
  if_pos failed

theorem error_of_succeeded
    : (ended (.exited 0) collectedAt watch copyError).error ≠ some (.exit status) := by
  cases watch with
  | idle =>
      cases copyError with
      | none => nofun
      | some err => nofun
  | killed => nofun
  | failed err => nofun

end Course

namespace Attempt

variable {attempt : Attempt timeout}

def Killed (attempt : Attempt timeout) : Prop :=
  ∃ collectedAt copyError,
    attempt.course = .ended (.signaled sigkill) collectedAt .killed copyError

def Exits (attempt : Attempt timeout) (code : Fin 256) : Prop :=
  ∃ collectedAt watch copyError,
    attempt.course = .ended (.exited code) collectedAt watch copyError

/-- The process exited by itself before the deadline, and what it printed was copied. -/
def ExitsInTime (attempt : Attempt timeout) (code : Fin 256) : Prop :=
  ∃ collectedAt watch, attempt.course = .ended (.exited code) collectedAt watch none
    ∧ collectedAt < cmdTimeout timeout

def execResult (attempt : Attempt timeout) (exitCode : Int) : ExecResult where
  exitCode := exitCode
  stdout := attempt.stdout
  stderr := attempt.stderr

@[simp] theorem execResult_exitCode {exitCode : Int}
    : (attempt.execResult exitCode).exitCode = exitCode :=
  rfl

theorem runCommand_exit {status : WaitStatus}
    (failed : attempt.course.error = some (.exit status))
    : attempt.runCommand = .ok (attempt.execResult status.exitCode) := by
  rw [runCommand, failed]
  rfl

theorem runCommand_none (succeeded : attempt.course.error = none)
    : attempt.runCommand = .ok (attempt.execResult 0) := by
  rw [runCommand, succeeded]
  rfl

theorem runCommand_other {err : GoError} (failed : attempt.course.error = some (.other err))
    : ∃ reported, attempt.runCommand = .error reported := by
  rw [runCommand, failed]
  dsimp only
  split
  · exact ⟨_, rfl⟩
  · exact ⟨_, rfl⟩

theorem Killed.runCommand (killed : attempt.Killed)
    : attempt.runCommand = .ok (attempt.execResult (-1)) := by
  obtain ⟨collectedAt, copyError, course⟩ := killed
  have failed : attempt.course.error = some (.exit (.signaled sigkill)) := by
    rw [course]
    exact Course.error_of_failed nofun
  exact runCommand_exit failed

theorem Exits.runCommand {code : Fin 256} (exits : attempt.Exits code)
    {result : ExecResult} (returned : attempt.runCommand = .ok result)
    : result = attempt.execResult code.val := by
  obtain ⟨collectedAt, watch, copyError, course⟩ := exits
  by_cases zero : code = 0
  · subst zero
    match failure : attempt.course.error with
    | none =>
        rw [runCommand_none failure] at returned
        exact (Except.ok.inj returned).symm
    | some (.exit status) =>
        rw [course] at failure
        exact absurd failure Course.error_of_succeeded
    | some (.other err) =>
        obtain ⟨reported, failed⟩ := runCommand_other failure
        rw [failed] at returned
        cases returned
  · have failed : attempt.course.error = some (.exit (.exited code)) := by
      rw [course]
      exact Course.error_of_failed (fun same => zero (WaitStatus.exited.inj same))
    rw [runCommand_exit failed] at returned
    exact (Except.ok.inj returned).symm

theorem ExitsInTime.runCommand {code : Fin 256} (exits : attempt.ExitsInTime code)
    : attempt.runCommand = .ok (attempt.execResult code.val) := by
  obtain ⟨collectedAt, watch, course, inTime⟩ := exits
  have idle : watch = .idle := by
    by_contra acted
    have fired := attempt.watched _ _ _ _ course acted
    have notEarly := attempt.notEarly
    omega
  subst idle
  by_cases zero : code = 0
  · subst zero
    have succeeded : attempt.course.error = none := by
      rw [course]
      rfl
    exact runCommand_none succeeded
  · have failed : attempt.course.error = some (.exit (.exited code)) := by
      rw [course]
      exact Course.error_of_failed (fun same => zero (WaitStatus.exited.inj same))
    exact runCommand_exit failed

end Attempt

end GoREgo.Worker

namespace GoREgo.Execution

open Scheduler

namespace System

variable {W H : Type} {s s' : System W H} {label : Label W H}

def Over (s : System W H) (name : String) : Prop :=
  ∃ w task, (w, task) ∈ s.handed ∧ task.name = name
    ∧ ∀ w', s.workers w' ≠ .dequeued task ∧ s.workers w' ≠ .executing task

def Excused (s : System W H) : Prop :=
  ∀ ref, ref < s.sched.nextOp → ∀ err, (s.sched.heap ref).error = some err →
    err = State.operationCancelled ∨ s.Over (s.sched.heap ref).name

variable {name : String} {w : W}

theorem Over.sameWorkers (past : s.Over name) (handed : s'.handed = s.handed)
    (workers : s'.workers = s.workers)
    : s'.Over name := by
  obtain ⟨w, task, given, named, free⟩ := past
  exact ⟨w, task, handed ▸ given, named, workers ▸ free⟩

theorem Over.takes [DecidableEq W] (past : s.Over name) {worker : Worker}
    (workers : s'.workers = Function.update s.workers w worker) (handed : s.handed ⊆ s'.handed)
    (other : ∀ task, worker = .dequeued task ∨ worker = .executing task →
      (∀ w' task', (w', task') ∈ s.handed → task' ≠ task)
        ∨ ∃ w', s.workers w' = .dequeued task)
    : s'.Over name := by
  obtain ⟨first, task, given, named, free⟩ := past
  refine ⟨first, task, handed given, named, fun w' => ?_⟩
  rw [workers]
  by_cases same : w' = w
  · subst same
    rw [Function.update_self]
    have held (taken : worker = .dequeued task ∨ worker = .executing task) : False := by
      rcases other task taken with fresh | ⟨w', holds⟩
      · exact fresh first task given rfl
      · exact (free w').1 holds
    exact ⟨fun taken => held (Or.inl taken), fun taken => held (Or.inr taken)⟩
  · rw [Function.update_of_ne same]
    exact free w'

theorem Over.effect [DecidableEq W] [DecidableEq H] (past : s.Over name) (owned : s.Owned)
    (effect : s.Effect label s')
    : s'.Over name := by
  cases effect with
  | full | sent | insert | quiet | completed | cancelOperation | deleteOperation
  | cleanupExpired => exact past.sameWorkers rfl rfl
  | @handed h request uuid now w unlocked idle fresh unbuffered waits =>
      refine past.takes rfl (List.subset_append_left _ _) (fun task taken => Or.inl ?_)
      intro w' task' given same
      have new := owned.fresh_task fresh request now task' (owned.handed_created given)
      rcases taken with taken | taken
      · exact new (congrArg Task.operationID (same.trans (Worker.dequeued.inj taken).symm))
      · cases taken
  | @dequeue w task rest idle queue =>
      refine past.takes rfl (List.subset_append_left _ _) (fun other taken => Or.inl ?_)
      intro w' task' given same
      have queued : task ∈ s.sched.taskQueue := by
        rw [queue]
        exact List.mem_cons_self
      rcases taken with taken | taken
      · exact owned.queue_not_handed queued given
          (congrArg Task.operationID ((Worker.dequeued.inj taken).trans same.symm))
      · cases taken
  | @updateState w now task holds unlocked =>
      refine past.takes rfl (List.Subset.refl _) (fun other taken => Or.inr ⟨w, ?_⟩)
      rcases taken with taken | taken
      · cases taken
      · rw [← Worker.executing.inj taken]
        exact holds
  | finish runs unlocked =>
      refine past.takes rfl (List.Subset.refl _) (fun other taken => ?_)
      rcases taken with taken | taken
      · cases taken
      · cases taken

theorem over_of_finish [DecidableEq W] (owned : s.Owned) {task : Task}
    (runs : s.workers w = .executing task) (handed : s'.handed = s.handed)
    (workers : s'.workers = Function.update s.workers w .idle)
    : s'.Over task.name := by
  refine ⟨w, task, handed ▸ owned.holds (Or.inr runs), rfl, fun w' => ?_⟩
  rw [workers]
  by_cases same : w' = w
  · subst same
    rw [Function.update_self]
    exact ⟨nofun, nofun⟩
  · rw [Function.update_of_ne same]
    exact ⟨fun holds => same (owned.holder_unique (Or.inl holds) (Or.inr runs) rfl).1,
      fun holds => same (owned.holder_unique (Or.inr holds) (Or.inr runs) rfl).1⟩

theorem Excused.sameHeap (excused : s.Excused) (past : ∀ name, s.Over name → s'.Over name)
    (heap : s'.sched.heap = s.sched.heap) (nextOp : s'.sched.nextOp = s.sched.nextOp)
    : s'.Excused := by
  intro ref below err failed
  rw [heap] at failed ⊢
  exact (excused ref (nextOp ▸ below) err failed).imp_right (past _)

theorem Excused.rewrite (excused : s.Excused) (owned : s.Owned)
    (past : ∀ name, s.Over name → s'.Over name) {change : OperationStatus → OperationStatus}
    (rewrite : s.sched.Rewrite s'.sched name change) (named : ∀ op, (change op).name = op.name)
    (adds : ∀ op err, (change op).error = some err →
      op.error = some err ∨ err = State.operationCancelled ∨ s'.Over name)
    : s'.Excused := by
  intro ref below err failed
  have old := excused ref (rewrite.nextOp ▸ below)
  by_cases tracked : s.sched.operations.lookup name = some ref
  · rw [rewrite.here tracked] at failed ⊢
    rw [named]
    rcases adds _ _ failed with kept | added
    · exact (old err kept).imp_right (past _)
    · rwa [owned.wellFormed.named tracked]
  · rw [rewrite.others tracked] at failed ⊢
    exact (old err failed).imp_right (past _)

theorem Excused.effect [DecidableEq W] [DecidableEq H] (excused : s.Excused) (owned : s.Owned)
    (effect : s.Effect label s')
    : s'.Excused := by
  have past name (finished : s.Over name) : s'.Over name := finished.effect owned effect
  cases effect with
  | full | sent | handed | dequeue => exact excused.sameHeap past rfl rfl
  | quiet moved unlocked other same => exact excused.sameHeap past same.heap same.nextOp
  | insert pc locked =>
      intro ref below err failed
      rcases Nat.lt_succ_iff_lt_or_eq.mp below with old | rfl
      · rw [State.heap_insertStatus_old old] at failed ⊢
        exact (excused ref old err failed).imp_right (past _)
      · rw [State.heap_insertStatus_new] at failed
        cases failed
  | completed unlocked pc =>
      exact excused.rewrite owned past (State.finish_rewrite ..) (fun _ => rfl)
        (fun _ _ failed => Or.inl failed)
  | updateState holds unlocked =>
      exact excused.rewrite owned past (State.updateState_rewrite ..) (fun _ => rfl)
        (fun _ _ failed => Or.inl failed)
  | @finish w outcome now task runs unlocked =>
      cases outcome with
      | error err =>
          exact excused.rewrite owned past (State.finish_rewrite ..) (fun _ => rfl)
            (fun _ _ _ => Or.inr (Or.inr (over_of_finish owned runs rfl rfl)))
      | ok result =>
          exact excused.rewrite owned past (State.finish_rewrite ..) (fun _ => rfl)
            (fun _ _ failed => Or.inl failed)
  | @cancelOperation name now unlocked =>
      refine excused.rewrite owned past (State.cancelOperation_rewrite ..) (fun op => ?_)
        (fun op err failed => ?_)
      · unfold State.cancelled
        split <;> rfl
      · unfold State.cancelled at failed
        split at failed
        · exact Or.inr (Or.inl (Option.some.inj failed).symm)
        · exact Or.inl failed
  | @deleteOperation name unlocked =>
      have drops := State.deleteOperation_drops s.sched name
      exact excused.sameHeap past drops.heap drops.nextOp
  | cleanupExpired unlocked => exact excused.sameHeap past rfl rfl

theorem excused_inductive [DecidableEq W] [DecidableEq H]
    : (machine : Lib.Machine (System W H) (Label W H)).Inductive Lib.Machine.anyStep
        (fun s => s.Owned ∧ s.Excused) :=
  owned_inductive.strengthen
    (fun s initial ref below => by
      obtain ⟨queueSize, nodeID, rfl⟩ := initial
      exact (Nat.not_lt_zero ref below).elim)
    (fun _ _ _ owned excused _ taken => excused.effect owned (step_effect taken))

theorem Excused.running (excused : s.Excused) (owned : s.Owned) {task : Task} {ref : OpRef}
    (runs : s.workers w = .executing task)
    (tracked : s.sched.operations.lookup task.name = some ref) {err : GoError}
    (failed : (s.sched.heap ref).error = some err)
    : err = State.operationCancelled := by
  rcases excused ref (owned.wellFormed.allocated tracked) err failed with cancelled | past
  · exact cancelled
  · obtain ⟨w', other, given, named, free⟩ := past
    rw [owned.wellFormed.named tracked] at named
    obtain rfl := owned.task_unique (owned.handed_created given)
      (owned.handed_created (owned.holds (Or.inr runs))) named
    exact absurd runs (free w).2

end System

open GoREgo.Worker (Attempt Command Duration Stores Uploader)

theorem code_convert (err : GoError) : err.convert.code = err.code?.getD .unknown := by
  cases err with
  | status code message => rfl
  | plain text => rfl
  | wrap text inner => rfl

theorem reported_finishTask {sched : State} {task : Task} {ref : OpRef}
    (tracked : sched.operations.lookup task.name = some ref)
    (outcome : Except GoError ActionResult) (now : Int)
    : ∃ op, (finishTask sched task outcome now).getOperation task.name = .ok op
      ∧ op.done = true
      ∧ op.result =
        match outcome, (sched.heap ref).error with
        | .error err, _ => .error err.convert
        | .ok _, some err => .error err.convert
        | .ok result, none => .response { result, cachedResult := false } := by
  have reported {record : OperationStatus → OperationStatus}
      : (sched.finish task.name record now).getOperation task.name
        = .ok (State.toProto (State.completed (sched.heap ref) record now)) := by
    have rewrite := State.finish_rewrite sched task.name record now
    simp only [State.getOperation, rewrite.operations, tracked, rewrite.here tracked]
  cases outcome with
  | error err => exact ⟨_, reported, rfl, rfl⟩
  | ok result =>
      refine ⟨_, reported, rfl, ?_⟩
      cases failed : (sched.heap ref).error with
      | none => simp [State.toProto, State.outcome, State.completed, failed]
      | some err => simp [State.toProto, State.outcome, State.completed, failed]

section Execute

variable {w : Uploader} {execRoot : Lib.Path} {command : Command} {timeout : Option Duration}
  {attempt : Attempt timeout} {task : Task} {stores : Stores}

theorem execute_failed {execResult : Worker.ExecResult} {err : GoError} {blobs : Worker.Blobs}
    (ran : attempt.runCommand = .ok execResult)
    (failed : w.uploadOutputs execRoot command execResult stores.blobs = .error err blobs)
    : (w.execute execRoot command task attempt stores).1
      = .error (.wrap "failed to upload outputs" err) := by
  simp only [Uploader.execute, ran, failed]

theorem execute_uploaded {execResult : Worker.ExecResult} {result : ActionResult}
    {blobs : Worker.Blobs} (ran : attempt.runCommand = .ok execResult)
    (uploaded : w.uploadOutputs execRoot command execResult stores.blobs = .ok result blobs)
    : (w.execute execRoot command task attempt stores).1 = .ok result := by
  simp only [Uploader.execute, ran, uploaded]
  split
  · rfl
  · rfl

theorem of_execute_ok {result : ActionResult}
    (returned : (w.execute execRoot command task attempt stores).1 = .ok result)
    : ∃ execResult blobs, attempt.runCommand = .ok execResult
      ∧ w.uploadOutputs execRoot command execResult stores.blobs = .ok result blobs := by
  cases ran : attempt.runCommand with
  | error err =>
      simp only [Uploader.execute, ran] at returned
      cases returned
  | ok execResult =>
      cases uploaded : w.uploadOutputs execRoot command execResult stores.blobs with
      | error err blobs =>
          rw [execute_failed ran uploaded] at returned
          cases returned
      | ok other blobs =>
          rw [execute_uploaded ran uploaded] at returned
          obtain rfl := Except.ok.inj returned
          exact ⟨execResult, blobs, rfl, uploaded⟩

theorem written_of_killed (killed : attempt.Killed)
    : (w.execute execRoot command task attempt stores).2.written = stores.written := by
  have ran := killed.runCommand
  cases uploaded : w.uploadOutputs execRoot command (attempt.execResult (-1)) stores.blobs with
  | error err blobs => simp only [Uploader.execute, ran, uploaded]
  | ok result blobs =>
      have failed : result.exitCode ≠ 0 := by
        rw [Uploader.exitCode_of_uploadOutputs execRoot command uploaded,
          Attempt.execResult_exitCode]
        decide
      simp only [Uploader.execute, ran, uploaded, failed, false_and, if_false]

end Execute

/-- The operation says how the process ended. Killed at its deadline, it gives an error of code
`DEADLINE_EXCEEDED` and nothing for the action cache. Whatever result a process has that exited
by itself carries its own exit code; and it has a result when it was in time, its outputs are
uploaded and the operation is not cancelled.
-/
structure Timely (w : Uploader) (execRoot : Lib.Path) (command : Command)
    {timeout : Option Duration} (attempt : Attempt timeout) (stores after : Stores)
    (record : OperationStatus) (op : Operation)
    : Prop where
  timedOut
    : attempt.Killed → ∃ status, op.result = .error status ∧ status.code = .deadlineExceeded
  uncached : attempt.Killed → after.written = stores.written
  ownCode
    : ∀ code, attempt.Exits code →
        ∀ response, op.result = .response response → response.result.exitCode = code.val
  answered
    : ∀ code, attempt.ExitsInTime code → record.error = none →
        ∀ result blobs,
          w.uploadOutputs execRoot command (attempt.execResult code.val) stores.blobs
            = .ok result blobs →
          op.result = .response { result, cachedResult := false }

namespace System

variable {W H : Type} [DecidableEq W] [DecidableEq H] {s s' : System W H}

/-- In every reachable state in which a worker finishes its command, the operation ends and says
how the process ended, exactly if the process was not killed at its deadline or the store
answers the upload of what it left with that very code.
-/
theorem timeout_reported_iff (reach : machine.Reachable Lib.Machine.anyStep s) {worker : W}
    {task : Task} (runs : s.workers worker = .executing task) {ref : OpRef}
    (tracked : s.sched.operations.lookup task.name = some ref) (w : Uploader)
    (execRoot : Lib.Path) (command : Command) {timeout : Option Duration}
    (attempt : Attempt timeout) (stores : Stores) (now : Int)
    (taken
      : s.step (.finish worker (w.execute execRoot command task attempt stores).1 now) = some s')
    : ∃ op, s'.sched.getOperation task.name = .ok op ∧ op.done = true
      ∧ (Timely w execRoot command attempt stores
            (w.execute execRoot command task attempt stores).2 (s.sched.heap ref) op
          ↔ (attempt.Killed →
              ∃ err blobs,
                w.uploadOutputs execRoot command (attempt.execResult (-1)) stores.blobs
                  = .error err blobs
                ∧ err.code? = some .deadlineExceeded)) := by
  obtain ⟨owned, excused⟩ := excused_inductive.reachable reach
  have after : s'.sched
      = finishTask s.sched task (w.execute execRoot command task attempt stores).1 now := by
    cases step_effect taken with
    | finish holds unlocked => rw [Worker.executing.inj (runs.symm.trans holds)]
  obtain ⟨op, reported, done, told⟩ :=
    reported_finishTask tracked (w.execute execRoot command task attempt stores).1 now
  refine ⟨op, after ▸ reported, done, ?_, ?_⟩
  · intro timely killed
    obtain ⟨status, failed, code⟩ := timely.timedOut killed
    cases uploaded : w.uploadOutputs execRoot command (attempt.execResult (-1)) stores.blobs with
    | error err blobs =>
        refine ⟨err, blobs, rfl, ?_⟩
        rw [execute_failed killed.runCommand uploaded] at told
        rw [← Operation.Result.error.inj (told.symm.trans failed), code_convert] at code
        cases inner : err.code? with
        | none => simp [GoError.code?, inner] at code
        | some found =>
            simp only [GoError.code?, inner, Option.getD_some] at code
            rw [code]
    | ok result blobs =>
        -- the operation completes with the exit code -1, or stays cancelled
        rw [execute_uploaded killed.runCommand uploaded] at told
        cases recorded : (s.sched.heap ref).error with
        | none =>
            rw [recorded] at told
            cases told.symm.trans failed
        | some err =>
            rw [recorded, excused.running owned runs tracked recorded] at told
            rw [← Operation.Result.error.inj (told.symm.trans failed)] at code
            cases code
  · intro spared
    refine ⟨fun killed => ?_, written_of_killed, fun code exits response answered => ?_,
      fun code exits uncancelled result blobs uploaded => ?_⟩
    · obtain ⟨err, blobs, failed, code⟩ := spared killed
      rw [execute_failed killed.runCommand failed] at told
      refine ⟨_, told, ?_⟩
      simp only [code_convert, GoError.code?, code, Option.getD_some]
    · cases outcome : (w.execute execRoot command task attempt stores).1 with
      | error err =>
          rw [outcome] at told
          cases told.symm.trans answered
      | ok result =>
          obtain ⟨execResult, blobs, ran, uploaded⟩ := of_execute_ok outcome
          obtain rfl := exits.runCommand ran
          have own := Uploader.exitCode_of_uploadOutputs execRoot command uploaded
          rw [Attempt.execResult_exitCode, Uploader.bmod_exitCode] at own
          rw [outcome] at told
          cases recorded : (s.sched.heap ref).error with
          | none =>
              rw [recorded] at told
              rw [← Operation.Result.response.inj (told.symm.trans answered)]
              exact own
          | some err =>
              rw [recorded] at told
              cases told.symm.trans answered
    · rw [execute_uploaded exits.runCommand uploaded, uncancelled] at told
      exact told

theorem exists_running_task
    : ∃ s : System (Fin 2) (Fin 2), ∃ task ref,
        machine.Reachable Lib.Machine.anyStep s ∧ s.workers 0 = .executing task
        ∧ s.locked = none ∧ s.sched.operations.lookup task.name = some ref
        ∧ (s.sched.heap ref).error = none := by
  let labels : List (Label (Fin 2) (Fin 2)) :=
    enqueueOne (.execute sampleDigest false "") ++ [.dequeue 0, .updateState 0 1]
  let task : Task := Request.task (.execute sampleDigest false "") (newScheduler 100 "test-node") sampleUUID 0
  obtain ⟨s, run, tested⟩ := Lib.Machine.exists_run_of_exec machine testNode labels
    (fun s => s.workers 0 = .executing task && s.locked = none
      && (s.sched.operations.lookup task.name).any (fun ref => (s.sched.heap ref).error = none))
    (by decide)
  simp only [Bool.and_eq_true, decide_eq_true_eq] at tested
  obtain ⟨⟨worker, unlocked⟩, found⟩ := tested
  obtain ⟨ref, tracked, unfailed⟩ := (Option.any_eq_true _ _).mp found
  exact ⟨s, task, ref, ⟨testNode, labels, ⟨100, "test-node", rfl⟩, run⟩, worker, unlocked,
    tracked, of_decide_eq_true unfailed⟩

theorem step_finish {w : W} {task : Task} (runs : s.workers w = .executing task)
    (unlocked : s.locked = none) (outcome : Except GoError ActionResult) (now : Int)
    : s.step (.finish w outcome now)
      = some { s with
          sched := finishTask s.sched task outcome now
          workers := Function.update s.workers w .idle } := by
  simp only [step, runs, unlocked]

end System

def sleepCommand : Command where
  arguments := ["sleep", "5"]
  workingDirectory := ""
  outputFiles := []
  outputDirectories := []
  outputPaths := []

def oneSecond : Option Duration := some { seconds := 1, nanos := 0 }

def overslept : Attempt oneSecond where
  course := .ended (.signaled GoREgo.Worker.sigkill) (10 ^ 9 + 5) .killed none
  stdout := []
  stderr := []
  expiry := 10 ^ 9
  checkedAt := 10 ^ 9 + 6
  notEarly := by decide
  late := nofun
  watched := by
    intro status collectedAt watch copyError same _
    obtain ⟨-, rfl, -, -⟩ := GoREgo.Worker.Course.ended.inj same
    decide

def endedEarly : Attempt oneSecond where
  course := .ended (.exited 3) (5 * 10 ^ 8) .idle none
  stdout := []
  stderr := []
  expiry := 10 ^ 9
  checkedAt := 6 * 10 ^ 8
  notEarly := by decide
  late := nofun
  watched := by
    intro status collectedAt watch copyError same acted
    obtain ⟨-, -, rfl, -⟩ := GoREgo.Worker.Course.ended.inj same
    exact absurd rfl acted

namespace System

open GoREgo.Worker (smallUploader)

/-- A command that is killed at its deadline leaves a completed operation with the exit code -1.
-/
theorem killed_completes
    : ∃ s s' : System (Fin 2) (Fin 2), ∃ task op response,
        machine.Reachable Lib.Machine.anyStep s ∧ s.workers 0 = .executing task
        ∧ overslept.Killed
        ∧ s.step (.finish 0 ((smallUploader (fun _ => none)).execute ["w"] sleepCommand task
            overslept ⟨⟨[], 0⟩, []⟩).1 2) = some s'
        ∧ s'.sched.getOperation task.name = .ok op
        ∧ op.result = .response response ∧ response.result.exitCode = -1 := by
  obtain ⟨s, task, ref, reach, runs, unlocked, tracked, unfailed⟩ := exists_running_task
  have killed : overslept.Killed := ⟨_, _, rfl⟩
  obtain ⟨op, reported, -, told⟩ := reported_finishTask tracked
    ((smallUploader (fun _ => none)).execute ["w"] sleepCommand task overslept
      ⟨⟨[], 0⟩, []⟩).1 2
  have uploaded : (smallUploader (fun _ => none)).uploadOutputs ["w"] sleepCommand
      (overslept.execResult (-1)) ⟨[], 0⟩ = .ok ⟨-1, none, none, [], []⟩ ⟨[], 0⟩ := rfl
  rw [execute_uploaded killed.runCommand uploaded, unfailed] at told
  exact ⟨s, _, task, op, _, reach, runs, killed, step_finish runs unlocked _ _, reported, told,
    rfl⟩

/-- A command that ends in time is reported with its exit code. -/
theorem ended_reported
    : ∃ s s' : System (Fin 2) (Fin 2), ∃ task ref op,
        machine.Reachable Lib.Machine.anyStep s ∧ s.workers 0 = .executing task
        ∧ s'.sched.getOperation task.name = .ok op ∧ endedEarly.ExitsInTime 3
        ∧ Timely (smallUploader (fun _ => none)) ["w"] sleepCommand endedEarly ⟨⟨[], 0⟩, []⟩
            ((smallUploader (fun _ => none)).execute ["w"] sleepCommand task endedEarly
              ⟨⟨[], 0⟩, []⟩).2 (s.sched.heap ref) op := by
  obtain ⟨s, task, ref, reach, runs, unlocked, tracked, unfailed⟩ := exists_running_task
  obtain ⟨op, reported, -, timely⟩ := timeout_reported_iff reach runs tracked
    (smallUploader (fun _ => none)) ["w"] sleepCommand endedEarly ⟨⟨[], 0⟩, []⟩ 2
    (step_finish runs unlocked _ _)
  refine ⟨s, _, task, ref, op, reach, runs, reported, ⟨_, _, rfl, by decide⟩, timely.mpr ?_⟩
  rintro ⟨collectedAt, copyError, killed⟩
  cases killed

end System

end GoREgo.Execution
