import GoREgo.Janitor.Fill
import GoREgo.Lib.Machine

/-! Eviction and uploads. The janitor walks the tree in which temporary files live and goes by
access times, and writing to a file is not an access: a temporary file is as old as its
creation. An upload survives when it ends within the minimal age and no cleanup has listed an
earlier file at the path of its blob.
-/

namespace GoREgo.Janitor

open Lib LocalStore Disk

variable {Call Src : Type}

namespace Uploads

structure State (Call Src : Type) where
  fs : Fs Call Src
  fill : Fill
  cleanup : Cleanup (Path Call Src)

/-- A step of the `Put`, a step of a cleanup, or the passing of time. -/
inductive Label (Call Src : Type)
  | upload (event : Fill.Event)
  | janitor (action : Action (Path Call Src))
  | tick (duration : Nat)

section Machine

variable [DecidableEq Call] [DecidableEq Src]

def step (config : Config (Path Call Src)) (call : Call) (digest : Digest)
    (s : State Call Src)
    : Label Call Src → Option (State Call Src)
  | .upload event =>
      (s.fill.step call digest s.fs event).map (fun next =>
        { s with fs := next.1, fill := next.2 })
  | .janitor action =>
      (s.cleanup.step config s.fs action).map (fun next =>
        { s with fs := next.1, cleanup := next.2 })
  | .tick duration => some { s with fs := s.fs.tick duration }

/-- The `Put` starts on any files, an older blob at its path included. The name of its
temporary file is new.
-/
def machine (config : Config (Path Call Src)) (call : Call) (digest : Digest) (data : Bytes)
    : Machine (State Call Src) (Label Call Src) where
  initial s :=
    s.fs.names (.temp call) = none ∧ s.fill = { rest := data } ∧ s.cleanup = .idle
  step := step config call digest

/-- No filesystem call of the `Put` fails for another reason than a missing file. -/
def noOtherFailure (call : Call) (digest : Digest) (s : State Call Src)
    : Label Call Src → Prop
  | .upload event => s.fill.fails call digest s.fs event = false
  | _ => True

/-- From `CreateTemp` to `Chmod` the temporary file, which no write refreshes, stays younger
than the minimal age; and at the rename no running cleanup has a file at the path of the blob
on its list.
-/
def timely (config : Config (Path Call Src)) (call : Call) (digest : Digest)
    (s : State Call Src)
    : Label Call Src → Prop
  | .tick duration =>
      (s.fill.place call digest : Option (Path Call Src)).isSome = true →
        s.fs.clock + duration < s.fs.atimes s.fill.fd + config.minAge
  | .upload _ =>
      s.fill.renames = true → ∀ file ∈ s.cleanup.listed, file.path ≠ .cas digest.hash
  | .janitor _ => True

def quick (config : Config (Path Call Src)) (call : Call) (digest : Digest)
    (s : State Call Src) (label : Label Call Src)
    : Prop :=
  noOtherFailure call digest s label ∧ timely config call digest s label

/-- No cleanup removes the temporary file before the rename, or the blob between the rename and
the `Chmod`. Time may pass.
-/
def spares (config : Config (Path Call Src)) (call : Call) (digest : Digest)
    (s : State Call Src)
    : Label Call Src → Prop
  | .janitor (.evict .ok) =>
      (s.fill.place call digest : Option (Path Call Src)).isSome = true →
        s.cleanup.target config ≠ s.fill.place call digest
  | _ => True

def calm (config : Config (Path Call Src)) (call : Call) (digest : Digest)
    (s : State Call Src) (label : Label Call Src)
    : Prop :=
  noOtherFailure call digest s label ∧ spares config call digest s label

end Machine

/-- The data of the `Put` is where it needs it, its file is young, and the cleanup has seen
no older file at that path.
-/
structure Safe (config : Config (Path Call Src)) (call : Call) (digest : Digest)
    (data : Bytes) (s : State Call Src) : Prop where
  intact : s.fill.Intact call digest data s.fs
  began : s.cleanup.began ≤ s.fs.clock
  young : ∀ path, s.fill.place call digest = some path →
    s.fs.clock < s.fs.atimes s.fill.fd + config.minAge
      ∧ ∀ file ∈ s.cleanup.listed, file.path = path → s.fs.atimes s.fill.fd ≤ file.atime
  unseen : s.fill.fresh = true → ∀ file ∈ s.cleanup.listed, file.path ≠ .temp call

variable {config : Config (Path Call Src)} {call : Call} {digest : Digest} {data : Bytes}
variable {s s' : State Call Src}

theorem Safe.spared (safe : Safe config call digest data s) {path removed : Path Call Src}
    (placed : s.fill.place call digest = some path)
    (aimed : s.cleanup.target config = some removed)
    : path ≠ removed := by
  rintro rfl
  obtain ⟨file, member, same, aged⟩ := Cleanup.target_spec aimed
  obtain ⟨young, seen⟩ := safe.young path placed
  have later := seen file member same
  have began := safe.began
  omega

theorem Safe.seen (safe : Safe config call digest data s) {path : Path Call Src}
    (placed : s.fill.place call digest = some path) {file : FileInfo (Path Call Src)}
    (seen : s.cleanup.Seen s.fs file) (same : file.path = path)
    : s.fs.atimes s.fill.fd ≤ file.atime := by
  rcases seen with listed | ⟨inode, found, time⟩
  · exact (safe.young path placed).2 file listed same
  · rw [same, safe.intact.placed path placed] at found
    rw [time, Option.some.inj found]

theorem Safe.stillUnseen (safe : Safe config call digest data s) (fresh : s.fill.fresh = true)
    {file : FileInfo (Path Call Src)} (seen : s.cleanup.Seen s.fs file)
    : file.path ≠ .temp call := by
  rcases seen with listed | ⟨inode, found, _⟩
  · exact safe.unseen fresh file listed
  · intro same
    rw [same, safe.intact.absent fresh] at found
    cases found

variable [DecidableEq Call] [DecidableEq Src]

/-- A calm step keeps the data of the `Put` where it needs it. -/
theorem intact_keeps (size : (data.length : Int) = digest.sizeBytes) {label : Label Call Src}
    (intact : s.fill.Intact call digest data s.fs) (allowed : calm config call digest s label)
    (taken : step config call digest s label = some s')
    : s'.fill.Intact call digest data s'.fs := by
  cases label with
  | upload event =>
      obtain ⟨next, moved, rfl⟩ := Option.map_eq_some_iff.mp taken
      exact (intact.advance size allowed.1 moved).intact intact
  | janitor action =>
      obtain ⟨⟨fs', cleanup'⟩, moved, rfl⟩ := Option.map_eq_some_iff.mp taken
      cases Cleanup.step_effect moved with
      | looks => exact intact
      | removes aimed removed =>
          obtain ⟨names, contents, -⟩ := FileSystem.remove_spec removed
          refine ⟨intact.whole.of_contents contents, fun path placed => ?_, fun fresh => ?_⟩
          · rw [names, Function.update_of_ne, intact.placed path placed]
            rintro rfl
            exact allowed.2 (placed ▸ rfl) (aimed.trans placed.symm)
          · rw [names]
            exact FileSystem.update_none_of_none (intact.absent fresh)
  | tick duration =>
      cases taken
      exact ⟨intact.whole, intact.placed, intact.absent⟩

theorem intact_inductive (size : (data.length : Int) = digest.sizeBytes)
    : (machine config call digest data).Inductive (calm config call digest)
        (fun s => s.fill.Intact call digest data s.fs) where
  start := by
    rintro ⟨fs, fill, cleanup⟩ ⟨absent, rfl, rfl⟩
    exact ⟨rfl, nofun, fun _ => absent⟩
  keeps _ _ _ intact allowed taken := intact_keeps size intact allowed taken

/-- A young file is not removed. -/
theorem Safe.calm (safe : Safe config call digest data s) {label : Label Call Src}
    (allowed : quick config call digest s label)
    : calm config call digest s label := by
  refine ⟨allowed.1, ?_⟩
  unfold spares
  split
  · intro placed aimed
    obtain ⟨path, place⟩ := Option.isSome_iff_exists.mp placed
    exact safe.spared place (aimed.trans place) rfl
  · trivial

theorem Safe.cleanup (safe : Safe config call digest data s) {fs' : Fs Call Src}
    {cleanup' : Cleanup (Path Call Src)} {action : Action (Path Call Src)}
    (intact : s.fill.Intact call digest data fs')
    (effect : Cleanup.Effect config s.fs s.cleanup action fs' cleanup')
    : Safe config call digest data { s with fs := fs', cleanup := cleanup' } := by
  cases effect with
  | looks seen time =>
      refine ⟨intact, ?_, ?_, ?_⟩
      · exact time.trans (Nat.max_le.mpr ⟨safe.began, Nat.le_refl _⟩)
      · intro path placed
        exact ⟨(safe.young path placed).1,
          fun file member same => safe.seen placed (seen file member) same⟩
      · intro fresh file member
        exact safe.stillUnseen fresh (seen file member)
  | removes aimed removed seen time =>
      obtain ⟨atimes, clock⟩ := FileSystem.remove_times removed
      refine ⟨intact, ?_, ?_, ?_⟩
      · rw [clock]
        exact time.trans (Nat.max_le.mpr ⟨safe.began, Nat.le_refl _⟩)
      · intro path placed
        rw [clock, atimes]
        exact ⟨(safe.young path placed).1,
          fun file member same => safe.seen placed (seen file member) same⟩
      · intro fresh file member
        exact safe.stillUnseen fresh (seen file member)

/-- A step of the `Put` keeps the invariant, by cases over how it advances. A new temporary
file was accessed now and has not been seen; the rename keeps the access time, and no file at
the path of the blob is on the list.
-/
theorem Safe.upload (safe : Safe config call digest data s) (positive : 0 < config.minAge)
    {fs' : Fs Call Src} {fill' : Fill}
    (unlisted : s.fill.renames = true →
      ∀ file ∈ s.cleanup.listed, file.path ≠ .cas digest.hash)
    (advance : Fill.Advance call digest s.fs s.fill fs' fill')
    : Safe config call digest data { s with fs := fs', fill := fill' } := by
  have intact := advance.intact safe.intact
  obtain ⟨fs, fill, cleanup⟩ := s
  cases advance with
  | mkdirs => exact ⟨intact, safe.began, nofun, safe.unseen⟩
  | creates rest fd fs' created =>
      obtain ⟨atimes, clock⟩ := FileSystem.create_times created
      refine ⟨intact, clock ▸ safe.began, ?_, nofun⟩
      rintro path same
      cases same
      refine ⟨?_, fun file member same => absurd same (safe.unseen rfl file member)⟩
      simp only [clock, atimes, Function.update_self]
      omega
  | copies | ends | closes => exact ⟨intact, safe.began, safe.young, nofun⟩
  | renames rest written fd fs' renamed =>
      obtain ⟨atimes, clock⟩ := FileSystem.rename_times renamed
      refine ⟨intact, clock ▸ safe.began, ?_, nofun⟩
      rintro path same
      cases same
      refine ⟨?_, fun file member same => absurd same (unlisted rfl file member)⟩
      simp only [clock, atimes]
      exact (safe.young (.temp call) rfl).1
  | chmods => exact ⟨intact, safe.began, nofun, nofun⟩
  | removes =>
      obtain ⟨-, clock⟩ := FileSystem.discard_times fs (.temp call)
      exact ⟨intact, clock ▸ safe.began, nofun, nofun⟩

theorem Safe.keeps (positive : 0 < config.minAge)
    (size : (data.length : Int) = digest.sizeBytes) {label : Label Call Src}
    (safe : Safe config call digest data s) (allowed : quick config call digest s label)
    (taken : step config call digest s label = some s')
    : Safe config call digest data s' := by
  have intact := intact_keeps size safe.intact (safe.calm allowed) taken
  cases label with
  | upload event =>
      obtain ⟨next, moved, rfl⟩ := Option.map_eq_some_iff.mp taken
      exact safe.upload positive allowed.2 (safe.intact.advance size allowed.1 moved)
  | janitor action =>
      obtain ⟨next, moved, rfl⟩ := Option.map_eq_some_iff.mp taken
      exact safe.cleanup intact (Cleanup.step_effect moved)
  | tick duration =>
      cases taken
      refine ⟨intact, ?_, ?_, safe.unseen⟩
      · exact safe.began.trans (Nat.le_add_right _ _)
      · intro path placed
        exact ⟨allowed.2 (placed ▸ rfl), (safe.young path placed).2⟩

/-- A run in which the `Put` is quick enough for the minimal age is calm, by induction over it. -/
theorem calm_of_quick (positive : 0 < config.minAge)
    (size : (data.length : Int) = digest.sizeBytes)
    (reach : (machine config call digest data).Reachable (quick config call digest) s)
    : (machine config call digest data).Reachable (calm config call digest) s := by
  obtain ⟨start, labels, initial, run⟩ := reach
  have safe : Safe config call digest data start := by
    obtain ⟨fs, fill, cleanup⟩ := start
    obtain ⟨absent, rfl, rfl⟩ := initial
    exact ⟨⟨rfl, nofun, fun _ => absent⟩, Nat.zero_le _, nofun, nofun⟩
  refine ⟨start, labels, initial, ?_⟩
  clear initial
  induction run with
  | nil => exact .nil _
  | cons allowed taken _ ih =>
      exact .cons (safe.calm allowed) taken (ih (safe.keeps positive size allowed taken))

/-- In every calm run of a `Put` of data with the declared length and any cleanups, from any
files: a `Put` that has returned has returned no error, between the rename and the `Chmod` the
blob is at its path, and from every state the `Put` can go on until it returns.
-/
theorem upload_survives_cleanups (config : Config (Path Call Src)) (call : Call)
    (digest : Digest) (data : Bytes) (size : (data.length : Int) = digest.sizeBytes)
    (s : State Call Src)
    (reach : (machine config call digest data).Reachable (calm config call digest) s)
    : (∀ temp err, s.fill.pc = .returned temp err → err = none)
      ∧ (s.fill.pc = .chmod → s.fs.find (.cas digest.hash) = some data)
      ∧ ∃ labels s', (machine config call digest data).Run (calm config call digest) s labels s'
          ∧ ∃ temp, s'.fill.pc = .returned temp none := by
  have inv : (machine config call digest data).Inductive (calm config call digest) _ :=
    intact_inductive size
  have intact := inv.reachable reach
  have nilError : ∀ s : State Call Src, s.fill.Intact call digest data s.fs → ∀ temp err,
      s.fill.pc = .returned temp err → err = none := by
    intro s intact temp err ended
    have whole := intact.whole
    unfold Fill.Whole at whole
    rw [ended] at whole
    exact whole
  refine ⟨nilError s intact, ?_, ?_⟩
  · intro renamed
    have placed := intact.placed (.cas digest.hash)
    have whole := intact.whole
    unfold Fill.Whole at whole
    unfold Fill.place at placed
    rw [renamed] at whole placed
    exact (FileSystem.find_of_names (placed rfl)).trans (congrArg some whole)
  · have finishes : ∃ labels s',
        (machine config call digest data).Run (calm config call digest) s labels s'
          ∧ ∃ temp err, s'.fill.pc = .returned temp err := by
      refine Machine.exists_run_to (fun s => s.fill.rank) inv.keeps ?_ intact
      intro s intact running
      obtain ⟨event, fs', fill', unfailed, taken, lower⟩ := intact.exists_advance size
        (fun temp err ended => running ⟨temp, err, ended⟩)
      refine ⟨.upload event, { s with fs := fs', fill := fill' }, ⟨unfailed, trivial⟩, ?_, lower⟩
      simp only [machine, step, taken, Option.map_some]
    obtain ⟨labels, s', run, temp, err, ended⟩ := finishes
    obtain rfl := nilError s' (inv.reachable (reach.after run)) temp err ended
    exact ⟨labels, s', run, temp, ended⟩

instance (call : Call) (digest : Digest) (s : State Call Src) (label : Label Call Src)
    : Decidable (noOtherFailure call digest s label) := by
  unfold noOtherFailure
  split <;> infer_instance

instance (config : Config (Path Call Src)) (call : Call) (digest : Digest)
    (s : State Call Src) (label : Label Call Src)
    : Decidable (spares config call digest s label) := by
  unfold spares
  split <;> infer_instance

instance (config : Config (Path Call Src)) (call : Call) (digest : Digest)
    (s : State Call Src) (label : Label Call Src)
    : Decidable (calm config call digest s label) :=
  inferInstanceAs (Decidable (_ ∧ _))

def oneByte (fs : Fs Unit Unit) : State Unit Unit :=
  ⟨fs, { rest := [1] }, .idle⟩

/-- The minimal age passes while the upload waits for its reader; a cleanup finds the
temporary file, last accessed at its creation, and removes it.
-/
def slowUpload : List (Label Unit Unit) :=
  [.upload (.disk .ok), .upload (.disk .ok), .upload (.read (.data [1])), .tick 30,
    .janitor .lock, .janitor (.visit (.temp ())), .janitor (.sort [⟨.temp (), 1, 0⟩]),
    .janitor (.evict .ok),
    .upload (.read (.error .eof)), .upload (.disk .ok),
    .upload (.disk (.fail (.plain "no such file or directory"))), .upload (.disk .ok)]

/-- The rename of a slow upload finds its temporary file removed, and `Put` fails although
the data is complete and nothing else failed.
-/
theorem cleanup_destroys_slow_upload
    : ∃ s, (machine fullCache () ⟨"00ff", 1⟩ [1]).Reachable (noOtherFailure () ⟨"00ff", 1⟩) s
        ∧ s.fill.pc = .returned none (some (.wrap "failed to rename temp file"
            (.plain "no such file or directory")))
        ∧ s.fs.find (.cas "00ff") = none := by
  obtain ⟨s, run, tested⟩ := Machine.exists_run_of_execIf
    (machine fullCache () ⟨"00ff", 1⟩ [1]) (noOtherFailure () ⟨"00ff", 1⟩)
    (oneByte .empty) slowUpload
    (fun s => decide (s.fill.pc = .returned none (some (.wrap "failed to rename temp file"
        (.plain "no such file or directory")))
      ∧ s.fs.find (.cas "00ff") = none)) (by decide)
  exact ⟨s, ⟨_, _, ⟨rfl, rfl, rfl⟩, run⟩, of_decide_eq_true tested⟩

/-- A cleanup lists the old blob, the upload replaces it, and the removal by path takes the
new blob before its `Chmod`.
-/
def replacedBlob : List (Label Unit Unit) :=
  [.upload (.disk .ok), .upload (.disk .ok), .upload (.read (.data [1])),
    .upload (.read (.error .eof)), .upload (.disk .ok),
    .janitor .lock, .janitor (.visit (.cas "00ff")), .janitor (.sort [⟨.cas "00ff", 1, 0⟩]),
    .upload (.disk .ok), .janitor (.evict .ok),
    .upload (.disk (.fail (.plain "no such file or directory"))), .upload (.disk .ok)]

theorem cleanup_removes_replaced_blob
    : ∃ s, (machine fullCache () ⟨"00ff", 1⟩ [1]).Reachable (noOtherFailure () ⟨"00ff", 1⟩) s
        ∧ s.fs.clock = oldBlob.clock
        ∧ s.fill.pc = .returned none (some (.wrap "failed to make file read-only"
            (.plain "no such file or directory"))) := by
  obtain ⟨s, run, tested⟩ := Machine.exists_run_of_execIf
    (machine fullCache () ⟨"00ff", 1⟩ [1]) (noOtherFailure () ⟨"00ff", 1⟩)
    (oneByte oldBlob) replacedBlob
    (fun s => decide (s.fs.clock = oldBlob.clock
      ∧ s.fill.pc = .returned none (some (.wrap "failed to make file read-only"
        (.plain "no such file or directory"))))) (by decide)
  exact ⟨s, ⟨_, _, ⟨rfl, rfl, rfl⟩, run⟩, of_decide_eq_true tested⟩

def spared : List (Label Unit Unit) :=
  [.upload (.disk .ok), .upload (.disk .ok), .upload (.read (.data [1])), .tick 29,
    .janitor .lock, .janitor (.visit (.temp ())), .janitor (.sort [⟨.temp (), 1, 0⟩]),
    .janitor (.evict .ok), .upload (.read (.error .eof)), .upload (.disk .ok),
    .upload (.disk .ok)]

/-- An upload of 29 time units survives the same cleanup: after its rename the blob is there.
-/
theorem quick_upload_survives
    : ∃ s, (machine fullCache () ⟨"00ff", 1⟩ [1]).Reachable (calm fullCache () ⟨"00ff", 1⟩) s
        ∧ s.fill.pc = .chmod ∧ s.fs.find (.cas "00ff") = some [1] := by
  obtain ⟨s, run, tested⟩ := Machine.exists_run_of_execIf
    (machine fullCache () ⟨"00ff", 1⟩ [1]) (calm fullCache () ⟨"00ff", 1⟩)
    (oneByte .empty) spared (fun s => decide (s.fill.pc = .chmod)) (by decide)
  have renamed := of_decide_eq_true tested
  have reach : (machine fullCache () ⟨"00ff", 1⟩ [1]).Reachable
      (calm fullCache () ⟨"00ff", 1⟩) s := ⟨_, _, ⟨rfl, rfl, rfl⟩, run⟩
  exact ⟨s, reach, renamed,
    (upload_survives_cleanups fullCache () ⟨"00ff", 1⟩ [1] rfl s reach).2.1 renamed⟩

end Uploads

end GoREgo.Janitor
