import GoREgo.Janitor.Fill
import GoREgo.Lib.Machine

/-! Eviction and reads. `ProxyStore.Get` checks that a blob is there, or fetches it, and opens
it in a later step; a removal in between turns the hit into an error. A `Get` is safe from a
janitor that skips the file the `Get` is using.
-/

namespace GoREgo.Janitor.Hits

open Lib LocalStore Disk

variable {Call Src : Type}

/-- Where a `ProxyStore.Get` is: in `local.Has`, before the remote `Get`, in the local `Put` of
what the remote sent, in `local.Get`, or returned with the error of the fetch.
-/
inductive Pc
  | has (pc : Has)
  | remoteGet
  | fill (fill : Fill)
  | get (pc : Disk.Get)
  | failed (err : GoError)

def Pc.result : Pc → Option (Except GoError Nat)
  | .get (.returned file) => some file
  | .failed err => some (.error err)
  | _ => none

/-- After `Has` a hit goes on to `local.Get`; a miss goes to the remote, and so does an error,
which is dropped.
-/
def afterHas : Has → Pc
  | .returned (.ok true) => .get .open
  | .returned _ => .remoteGet
  | pc => .has pc

/-- After the local `Put` the `Get` goes on to `local.Get`, or returns its error. -/
def afterFill (fill : Fill) : Pc :=
  match fill.pc with
  | .returned _ none => .get .open
  | .returned _ (some err) => .failed err
  | _ => .fill fill

structure State (Call Src : Type) where
  fs : Fs Call Src
  pc : Pc
  cleanup : Cleanup (Path Call Src)

/-- What stays fixed: the limits of the janitor, the option of the store, the digest, and the
blob that the remote tier holds for it.
-/
structure World (Call Src : Type) where
  config : Config (Path Call Src)
  forceUpdateATime : Bool
  call : Call
  digest : Digest
  blob : Bytes

/-- A filesystem call of the `Get`, a read of the remote's reader, the remote `Get`, a step of
a cleanup, or the passing of time.
-/
inductive Label (Call Src : Type)
  | disk (outcome : Outcome)
  | read (read : Proxy.Read)
  | remote (outcome : Outcome)
  | janitor (action : Action (Path Call Src))
  | tick (duration : Nat)

/-- The file that the `Get` is using: the blob it has found or stored and not yet opened, or
the temporary file it is writing.
-/
def Pc.uses (world : World Call Src) : Pc → Option (Path Call Src)
  | .has .chtimes => some (.cas world.digest.hash)
  | .fill put =>
      match put.pc with
      | .deferred _ _ => some (.cas world.digest.hash)
      | _ => put.place world.call world.digest
  | .get .open => some (.cas world.digest.hash)
  | _ => none

variable {fill : Fill} {pc : Pc}

theorem uses_of_place {world : World Call Src} {path : Path Call Src}
    (placed : fill.place world.call world.digest = some path)
    : (Pc.fill fill).uses world = some path := by
  obtain ⟨rest, fd, pc⟩ := fill
  cases pc with
  | deferred => cases placed
  | _ => exact placed

theorem uses_of_deferred {world : World Call Src} {temp : Option Bytes} {err : Option GoError}
    (ended : fill.pc = .deferred temp err)
    : (Pc.fill fill).uses world = some (.cas world.digest.hash) := by
  obtain ⟨rest, fd, pc⟩ := fill
  obtain rfl : pc = .deferred temp err := ended
  rfl

section Machine

variable [DecidableEq Call] [DecidableEq Src]

def diskStep (world : World Call Src) (fs : Fs Call Src)
    : Pc → Outcome → Option (Fs Call Src × Pc)
  | .has pc, outcome =>
      (pc.disk world.forceUpdateATime fs.names fs world.digest outcome).map (fun next =>
        (next.1, afterHas next.2))
  | .fill fill, outcome =>
      (fill.step world.call world.digest fs (.disk outcome)).map (fun next =>
        (next.1, afterFill next.2))
  | .get pc, outcome =>
      (pc.disk world.forceUpdateATime fs.names fs world.digest outcome).map (fun next =>
        (next.1, .get next.2))
  | _, _ => none

def step (world : World Call Src) (s : State Call Src)
    : Label Call Src → Option (State Call Src)
  | .disk outcome =>
      (diskStep world s.fs s.pc outcome).map (fun next =>
        { s with fs := next.1, pc := next.2 })
  | .read read =>
      match s.pc with
      | .fill fill =>
          (fill.step world.call world.digest s.fs (.read read)).map (fun next =>
            { s with fs := next.1, pc := afterFill next.2 })
      | _ => none
  | .remote outcome =>
      match s.pc, outcome with
      | .remoteGet, .ok => some { s with pc := .fill { rest := world.blob } }
      | .remoteGet, .fail err => some { s with pc := .failed err }
      | _, _ => none
  | .janitor action =>
      (s.cleanup.step world.config s.fs action).map (fun next =>
        { s with fs := next.1, cleanup := next.2 })
  | .tick duration => some { s with fs := s.fs.tick duration }

/-- The `Get` starts on any files. The local blob, if there is one, is the remote's. -/
def machine (world : World Call Src) : Machine (State Call Src) (Label Call Src) where
  initial s :=
    s.fs.names (.temp world.call) = none
      ∧ (∀ found, s.fs.find (.cas world.digest.hash) = some found → found = world.blob)
      ∧ s.pc = .has .stat ∧ s.cleanup = .idle
  step := step world

/-- No operation of a store fails on its own. Opening a file fails when it is not there. -/
def noOwnFailure (world : World Call Src) (s : State Call Src) : Label Call Src → Prop
  | .disk (.fail err) =>
      match s.pc with
      | .fill fill => fill.fails world.call world.digest s.fs (.disk (.fail err)) = false
      | .get .open => s.fs.names (.cas world.digest.hash) = none
      | _ => False
  | .read read =>
      match s.pc with
      | .fill fill => fill.fails world.call world.digest s.fs (.read read) = false
      | _ => True
  | .remote (.fail _) => False
  | _ => True

def skipsUsed (world : World Call Src) (s : State Call Src) : Label Call Src → Prop
  | .janitor (.evict .ok) =>
      ∀ path, s.cleanup.target world.config = some path → s.pc.uses world ≠ some path
  | _ => True

def guarded (world : World Call Src) (s : State Call Src) (label : Label Call Src) : Prop :=
  noOwnFailure world s label ∧ skipsUsed world s label

end Machine

def Stored (world : World Call Src) (fs : Fs Call Src) : Prop :=
  fs.find (.cas world.digest.hash) = some world.blob

/-- What the `Get` knows at each point: before it has seen the blob, nothing but that its
temporary file is not there; after a hit or a fill the blob is at its path; and an open file
is the blob.
-/
def Knows (world : World Call Src) (fs : Fs Call Src) : Pc → Prop
  | .has .stat =>
      fs.names (.temp world.call) = none
        ∧ ∀ found, fs.find (.cas world.digest.hash) = some found → found = world.blob
  | .has .chtimes | .get .open => Stored world fs
  | .remoteGet => fs.names (.temp world.call) = none
  | .fill fill =>
      fill.Intact world.call world.digest world.blob fs
        ∧ (∀ temp err, fill.pc = .deferred temp err → Stored world fs)
        ∧ ∀ temp err, fill.pc ≠ .returned temp err
  | .get (.chtimes inode) | .get (.returned (.ok inode)) => fs.contents inode = world.blob
  | .has (.returned _) | .get (.returned (.error _)) | .failed _ => False

variable {world : World Call Src} {fs fs' : Fs Call Src} {s s' : State Call Src}

theorem Knows.of_tick (knows : Knows world fs pc) (duration : Nat)
    : Knows world (fs.tick duration) pc := by
  match pc with
  | .has .stat | .has .chtimes | .remoteGet => exact knows
  | .fill fill =>
      exact ⟨⟨knows.1.whole, knows.1.placed, knows.1.absent⟩, knows.2⟩
  | .get .open | .get (.chtimes _) | .get (.returned (.ok _)) => exact knows

theorem Knows.result (knows : Knows world fs pc) {result : Except GoError Nat}
    (returned : pc.result = some result)
    : ∃ inode, result = .ok inode ∧ fs.contents inode = world.blob := by
  match pc with
  | .get (.returned (.ok inode)) =>
      cases returned
      exact ⟨inode, rfl, knows⟩
  | .has _ | .remoteGet | .fill _ | .get .open | .get (.chtimes _) => cases returned

variable [DecidableEq Call] [DecidableEq Src]

/-- Removing a file that the `Get` is not using takes nothing away from what it knows. -/
theorem Knows.of_remove {path : Path Call Src} (knows : Knows world fs pc)
    (removed : fs.remove path = some fs') (unused : pc.uses world ≠ some path)
    : Knows world fs' pc := by
  obtain ⟨names, contents, -⟩ := FileSystem.remove_spec removed
  have kept : ∀ other, path ≠ other → fs'.find other = fs.find other := by
    intro other distinct
    refine FileSystem.find_congr ?_ (fun inode _ => congrFun contents inode)
    rw [names, Function.update_of_ne distinct.symm]
  match pc with
  | .has .stat =>
      refine ⟨?_, ?_⟩
      · rw [names]
        exact FileSystem.update_none_of_none knows.1
      · intro found seen
        by_cases same : path = .cas world.digest.hash
        · subst same
          simp only [FileSystem.find, names, Function.update_self, Option.map_none] at seen
          cases seen
        · rw [kept _ same] at seen
          exact knows.2 found seen
  | .has .chtimes | .get .open =>
      exact (kept _ (fun same => unused (congrArg some same.symm))).trans knows
  | .remoteGet =>
      show fs'.names _ = none
      rw [names]
      exact FileSystem.update_none_of_none knows
  | .fill fill =>
      obtain ⟨intact, stored, running⟩ := knows
      refine ⟨⟨intact.whole.of_contents contents, ?_, ?_⟩, ?_, running⟩
      · intro place placed
        rw [names, Function.update_of_ne]
        · exact intact.placed place placed
        · rintro rfl
          exact unused (uses_of_place placed)
      · intro fresh
        rw [names]
        exact FileSystem.update_none_of_none (intact.absent fresh)
      · intro temp err ended
        refine (kept _ ?_).trans (stored temp err ended)
        rintro rfl
        exact unused (uses_of_deferred ended)
  | .get (.chtimes inode) | .get (.returned (.ok inode)) =>
      exact (congrFun contents inode).trans knows

theorem Knows.of_advance {fill' : Fill} (knows : Knows world fs (.fill fill))
    (advance : Fill.Advance world.call world.digest fs fill fs' fill')
    : Knows world fs' (afterFill fill') := by
  obtain ⟨intact, stored, -⟩ := knows
  have next := advance.intact intact
  cases advance with
  | mkdirs | creates | copies | ends | closes | renames => exact ⟨next, nofun, nofun⟩
  | chmods rest fd =>
      refine ⟨next, fun _ _ _ => ?_, nofun⟩
      have found := intact.placed (.cas world.digest.hash) rfl
      exact (FileSystem.find_of_names found).trans (congrArg some intact.whole)
  | removes rest fd temp =>
      have distinct : (.cas world.digest.hash : Path Call Src) ≠ .temp world.call := nofun
      exact (FileSystem.find_discard distinct).trans (stored temp none rfl)

theorem Knows.disk {pc' : Pc} {outcome : Outcome} {cleanup : Cleanup (Path Call Src)}
    (knows : Knows world fs pc) (unfailed : noOwnFailure world ⟨fs, pc, cleanup⟩ (.disk outcome))
    (taken : diskStep world fs pc outcome = some (fs', pc'))
    : Knows world fs' pc' := by
  match pc, outcome with
  | .has .stat, .ok =>
      obtain ⟨⟨_, next⟩, moved, same⟩ := Option.map_eq_some_iff.mp taken
      cases same
      simp only [Has.disk] at moved
      split at moved
      · next there =>
        cases moved
        obtain ⟨inode, found⟩ := Option.isSome_iff_exists.mp there
        have whole := knows.2 _ (FileSystem.find_of_names found)
        have stored : Stored world fs :=
          (FileSystem.find_of_names found).trans (congrArg some whole)
        cases force : world.forceUpdateATime with
        | true => exact stored
        | false => exact stored
      · cases moved
        exact knows.1
  | .has .chtimes, .ok =>
      cases taken
      obtain ⟨names, contents, -⟩ := chtimes_spec fs (fs.names (.cas world.digest.hash))
      exact (FileSystem.find_congr (congrFun names _)
        (fun inode _ => congrFun contents inode)).trans knows
  | .fill fill, outcome =>
      obtain ⟨next, moved, same⟩ := Option.map_eq_some_iff.mp taken
      cases same
      refine knows.of_advance (knows.1.disk_advance ?_ moved)
      cases outcome with
      | ok => rfl
      | fail err => exact unfailed
  | .get .open, .ok =>
      obtain ⟨⟨_, next⟩, moved, same⟩ := Option.map_eq_some_iff.mp taken
      cases same
      obtain ⟨inode, found, same⟩ := Option.map_eq_some_iff.mp moved
      cases same
      have whole : fs.contents inode = world.blob :=
        Option.some.inj ((FileSystem.find_of_names found).symm.trans knows)
      cases force : world.forceUpdateATime with
      | true => exact whole
      | false => exact whole
  | .get .open, .fail err =>
      have absent : fs.names (.cas world.digest.hash) = none := unfailed
      have stored : fs.find (.cas world.digest.hash) = some world.blob := knows
      simp only [FileSystem.find, absent, Option.map_none] at stored
      cases stored
  | .get (.chtimes inode), .ok =>
      cases taken
      exact (congrFun (chtimes_spec fs (fs.names (.cas world.digest.hash))).2.1 inode).trans knows
  | .get (.returned (.ok _)), _ => cases taken

theorem knows_keeps (size : (world.blob.length : Int) = world.digest.sizeBytes)
    {label : Label Call Src} (knows : Knows world s.fs s.pc) (allowed : guarded world s label)
    (taken : step world s label = some s')
    : Knows world s'.fs s'.pc := by
  obtain ⟨fs, pc, cleanup⟩ := s
  cases label with
  | disk outcome =>
      obtain ⟨next, moved, rfl⟩ := Option.map_eq_some_iff.mp taken
      exact knows.disk allowed.1 moved
  | read read =>
      cases pc with
      | fill fill =>
          obtain ⟨next, moved, rfl⟩ := Option.map_eq_some_iff.mp taken
          exact knows.of_advance (knows.1.read_advance size allowed.1 moved)
      | _ => cases taken
  | remote outcome =>
      cases outcome with
      | fail err => exact allowed.1.elim
      | ok =>
          cases pc with
          | remoteGet =>
              cases taken
              exact ⟨⟨rfl, nofun, fun _ => knows⟩, nofun, nofun⟩
          | _ => cases taken
  | janitor action =>
      obtain ⟨next, moved, rfl⟩ := Option.map_eq_some_iff.mp taken
      obtain ⟨fs', cleanup'⟩ := next
      cases Cleanup.step_effect moved with
      | looks => exact knows
      | removes aimed removed => exact knows.of_remove removed (allowed.2 _ aimed)
  | tick duration =>
      cases taken
      exact Knows.of_tick knows duration

theorem knows_inductive (world : World Call Src)
    (size : (world.blob.length : Int) = world.digest.sizeBytes)
    : (machine world).Inductive (guarded world) (fun s => Knows world s.fs s.pc) where
  start := by
    rintro ⟨fs, pc, cleanup⟩ ⟨absent, whole, rfl, rfl⟩
    exact ⟨absent, whole⟩
  keeps _ _ _ knows allowed taken := knows_keeps size knows allowed taken

def Pc.rank (blob : Bytes) : Pc → Nat
  | .has .stat => blob.length + 13
  | .remoteGet => blob.length + 12
  | .fill put => put.rank + 3
  | .has _ => 4
  | .get .open => 3
  | .get (.chtimes _) => 2
  | .get (.returned _) | .failed _ => 0

theorem rank_afterFill_le (blob : Bytes) (fill : Fill)
    : (afterFill fill).rank blob ≤ fill.rank + 3 := by
  unfold afterFill
  split
  · exact Nat.le_add_left _ _
  · exact Nat.zero_le _
  · exact Nat.le_refl _

/-- A `Get` that has not returned has a guarded step of its own that brings it further; it
never waits for the janitor.
-/
theorem Knows.exists_step (knows : Knows world fs pc)
    (size : (world.blob.length : Int) = world.digest.sizeBytes) (running : pc.result = none)
    (cleanup : Cleanup (Path Call Src))
    : ∃ label s', guarded world ⟨fs, pc, cleanup⟩ label
        ∧ step world ⟨fs, pc, cleanup⟩ label = some s'
        ∧ s'.pc.rank world.blob < pc.rank world.blob := by
  match pc with
  | .has .stat =>
      cases found : fs.names (.cas world.digest.hash) with
      | none =>
          refine ⟨.disk .ok, ⟨fs, .remoteGet, cleanup⟩, ⟨trivial, trivial⟩, ?_,
            Nat.lt_succ_self _⟩
          simp [step, diskStep, Has.disk, found, afterHas]
      | some inode =>
          cases force : world.forceUpdateATime with
          | true =>
              refine ⟨.disk .ok, ⟨fs, .has .chtimes, cleanup⟩, ⟨trivial, trivial⟩, ?_, ?_⟩
              · simp [step, diskStep, Has.disk, found, force, afterHas]
              · simp only [Pc.rank]
                omega
          | false =>
              refine ⟨.disk .ok, ⟨fs, .get .open, cleanup⟩, ⟨trivial, trivial⟩, ?_, ?_⟩
              · simp [step, diskStep, Has.disk, found, force, afterHas]
              · simp only [Pc.rank]
                omega
  | .has .chtimes =>
      exact ⟨.disk .ok, ⟨chtimes fs _, .get .open, cleanup⟩, ⟨trivial, trivial⟩, rfl,
        Nat.lt_succ_self _⟩
  | .remoteGet =>
      exact ⟨.remote .ok, ⟨fs, .fill { rest := world.blob }, cleanup⟩, ⟨trivial, trivial⟩, rfl,
        Nat.lt_succ_self _⟩
  | .fill fill =>
      obtain ⟨event, fs', fill', unfailed, taken, lower⟩ :=
        knows.1.exists_advance size knows.2.2
      have closer : (afterFill fill').rank world.blob < (Pc.fill fill).rank world.blob :=
        Nat.lt_of_le_of_lt (rank_afterFill_le world.blob fill') (Nat.add_lt_add_right lower 3)
      cases event with
      | disk outcome =>
          refine ⟨.disk outcome, ⟨fs', afterFill fill', cleanup⟩, ⟨?_, trivial⟩, ?_, closer⟩
          · cases outcome with
            | ok => trivial
            | fail err => exact unfailed
          · simp only [step, diskStep, taken, Option.map_some]
      | read read =>
          refine ⟨.read read, ⟨fs', afterFill fill', cleanup⟩, ⟨unfailed, trivial⟩, ?_, closer⟩
          simp only [step, taken, Option.map_some]
  | .get .open =>
      obtain ⟨inode, found, _⟩ := FileSystem.find_eq_some knows
      cases force : world.forceUpdateATime with
      | true =>
          refine ⟨.disk .ok, ⟨fs, .get (.chtimes inode), cleanup⟩, ⟨trivial, trivial⟩, ?_,
            Nat.lt_succ_self _⟩
          simp [step, diskStep, Get.disk, found, force]
      | false =>
          refine ⟨.disk .ok, ⟨fs, .get (.returned (.ok inode)), cleanup⟩, ⟨trivial, trivial⟩,
            ?_, Nat.succ_pos _⟩
          simp [step, diskStep, Get.disk, found, force]
  | .get (.chtimes inode) =>
      exact ⟨.disk .ok, ⟨chtimes fs _, .get (.returned (.ok inode)), cleanup⟩,
        ⟨trivial, trivial⟩, rfl, Nat.succ_pos _⟩
  | .get (.returned _) | .failed _ => cases running

/-- In every run of a `Get` and any cleanups in which no store operation fails on its own and
the janitor skips the file that the `Get` is using: what the `Get` returns is the open blob,
and from every state it can go on until it returns.
-/
theorem get_returns_blob (world : World Call Src)
    (size : (world.blob.length : Int) = world.digest.sizeBytes) (s : State Call Src)
    (reach : (machine world).Reachable (guarded world) s)
    : (∀ result, s.pc.result = some result →
        ∃ inode, result = .ok inode ∧ s.fs.contents inode = world.blob)
      ∧ ∃ labels s' inode, (machine world).Run (guarded world) s labels s'
          ∧ s'.pc.result = some (.ok inode) ∧ s'.fs.contents inode = world.blob := by
  have knows := (knows_inductive world size).reachable reach
  refine ⟨fun result returned => knows.result returned, ?_⟩
  have finishes : ∃ labels s', (machine world).Run (guarded world) s labels s'
      ∧ s'.pc.result ≠ none :=
    Machine.exists_run_to (fun s => s.pc.rank world.blob)
      (fun _ _ _ knows allowed taken => knows_keeps size knows allowed taken)
      (fun s knows running => Knows.exists_step knows size (not_not.mp running) s.cleanup) knows
  obtain ⟨labels, s', run, ended⟩ := finishes
  obtain ⟨result, returned⟩ := Option.ne_none_iff_exists'.mp ended
  have after := (knows_inductive world size).reachable (reach.after run)
  obtain ⟨inode, rfl, whole⟩ := after.result returned
  exact ⟨labels, s', inode, run, returned, whole⟩

instance (world : World Call Src) (s : State Call Src) (label : Label Call Src)
    : Decidable (noOwnFailure world s label) := by
  unfold noOwnFailure
  split
  · split <;> infer_instance
  · split <;> infer_instance
  · infer_instance
  · infer_instance

instance (world : World Call Src) (s : State Call Src) (label : Label Call Src)
    : Decidable (skipsUsed world s label) := by
  unfold skipsUsed
  split
  · cases target : s.cleanup.target world.config with
    | none => exact isTrue nofun
    | some aimed =>
        exact decidable_of_iff (s.pc.uses world ≠ some aimed)
          ⟨fun unused path same => Option.some.inj same ▸ unused, fun skips => skips aimed rfl⟩
  · infer_instance

instance (world : World Call Src) (s : State Call Src) (label : Label Call Src)
    : Decidable (guarded world s label) :=
  inferInstanceAs (Decidable (_ ∧ _))

def cachedBlob : World Unit Unit where
  config := fullCache
  forceUpdateATime := true
  call := ()
  digest := ⟨"00ff", 1⟩
  blob := [1]

def beforeHit : State Unit Unit :=
  ⟨oldBlob, .has .stat, .idle⟩

/-- A cleanup has listed the blob when `Has` finds it and refreshes its access time; the
removal goes by what the walk saw.
-/
def evictedHit : List (Label Unit Unit) :=
  [.janitor .lock, .janitor (.visit (.cas "00ff")), .janitor (.sort [⟨.cas "00ff", 1, 0⟩]),
    .disk .ok, .disk .ok, .janitor (.evict .ok),
    .disk (.fail (.plain "no such file or directory"))]

/-- A `Get` whose `Has` was a hit returns a not-exist error, although the remote tier holds
the blob and no store operation failed on its own.
-/
theorem eviction_turns_hit_into_error
    : ∃ s, (machine cachedBlob).Reachable (noOwnFailure cachedBlob) s
        ∧ s.pc.result = some (.error (.plain "no such file or directory")) := by
  obtain ⟨s, run, tested⟩ := Machine.exists_run_of_execIf (machine cachedBlob)
    (noOwnFailure cachedBlob) beforeHit evictedHit
    (fun s => s.pc.result = some (.error (.plain "no such file or directory"))) (by decide)
  refine ⟨s, ⟨_, _, ⟨rfl, ?_, rfl, rfl⟩, run⟩, of_decide_eq_true tested⟩
  intro found same
  exact (Option.some.inj same).symm

def openedHit : List (Label Unit Unit) :=
  [.janitor .lock, .janitor (.visit (.cas "00ff")), .janitor (.sort [⟨.cas "00ff", 1, 0⟩]),
    .disk .ok, .disk .ok, .disk .ok, .janitor (.evict .ok), .disk .ok]

/-- The open file is the blob, although its path is gone. -/
theorem opened_blob_outlives_eviction
    : ∃ s, (machine cachedBlob).Reachable (guarded cachedBlob) s
        ∧ s.fs.find (.cas "00ff") = none
        ∧ ∃ inode, s.pc.result = some (.ok inode) ∧ s.fs.contents inode = [1] := by
  obtain ⟨s, run, tested⟩ := Machine.exists_run_of_execIf (machine cachedBlob)
    (guarded cachedBlob) beforeHit openedHit
    (fun s => decide (s.fs.find (.cas "00ff") = none) && s.pc.result.isSome) (by decide +kernel)
  obtain ⟨gone, ended⟩ := (Bool.and_eq_true _ _).mp tested
  have reach : (machine cachedBlob).Reachable (guarded cachedBlob) s := by
    refine ⟨_, _, ⟨rfl, ?_, rfl, rfl⟩, run⟩
    intro found same
    exact (Option.some.inj same).symm
  obtain ⟨result, returned⟩ := Option.isSome_iff_exists.mp ended
  obtain ⟨inode, rfl, whole⟩ := (get_returns_blob cachedBlob rfl s reach).1 result returned
  exact ⟨s, reach, of_decide_eq_true gone, inode, returned, whole⟩

end GoREgo.Janitor.Hits
