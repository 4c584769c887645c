import GoREgo.Lib.FileSystem
import GoREgo.Storage.Local
import Mathlib.Data.List.Sort

/-! `Janitor.Cleanup`: it walks the files below its root, and when they are too large it
removes the ones accessed longest ago, by the access times it saw on the walk. One cleanup
runs at a time, under the janitor's mutex.
-/

namespace GoREgo.Janitor

open Lib LocalStore

variable {π : Type}

/-- The limits of a janitor, and which files are below its root directory. -/
structure Config (π : Type) where
  maxSize : Int
  minAge : Nat
  inRoot : π → Bool

structure FileInfo (π : Type) where
  path : π
  size : Nat
  atime : Nat
deriving DecidableEq, Repr

/-- The cleanup under the mutex: none, walking with the files and the total size seen so far,
or removing, with the time at which it began and the files it has still to look at.
-/
inductive Cleanup (π : Type)
  | idle
  | walking (files : List (FileInfo π)) (totalSize : Int)
  | evicting (now : Nat) (files : List (FileInfo π)) (totalSize : Int)
deriving DecidableEq, Repr

/-- The steps of a cleanup. The walk reports files in any order and may miss what appears or
moves while it goes; `sort.Slice` is not stable, so any order by access time may come out.
-/
inductive Action (π : Type)
  | lock
  | visit (path : π)
  | walkFails
  | withinLimit
  | sort (sorted : List (FileInfo π))
  | evict (outcome : Outcome)
deriving DecidableEq, Repr

/-- What becomes of a file at its turn of the loop. -/
inductive Fate
  | removed
  | refused
  | young
deriving DecidableEq, Repr

/-- The total size is an `int64`. -/
def addSize (totalSize size : Int) : Int := (totalSize + size).bmod (2 ^ 64)

namespace Cleanup

def byAge (files : List (FileInfo π)) : Bool :=
  files.Pairwise (fun older newer => older.atime ≤ newer.atime)

/-- Whether the safeguard lets a file be removed that was last accessed at `atime`. -/
def old (config : Config π) (now atime : Nat) : Bool :=
  !((now : Int) - atime < config.minAge)

def listed : Cleanup π → List (FileInfo π)
  | .idle => []
  | .walking files _ => files
  | .evicting _ files _ => files

def target (config : Config π) : Cleanup π → Option π
  | .evicting now (file :: _) totalSize =>
      if config.maxSize < totalSize && old config now file.atime then some file.path else none
  | _ => none

def began : Cleanup π → Nat
  | .evicting now _ _ => now
  | _ => 0

/-- The file that is removed is on the list, with an access time that was old enough when
the cleanup began to remove.
-/
theorem target_spec {config : Config π} {c : Cleanup π} {path : π}
    (aimed : c.target config = some path)
    : ∃ file ∈ c.listed, file.path = path ∧ file.atime + config.minAge ≤ c.began := by
  unfold target at aimed
  split at aimed
  · next now file rest totalSize =>
    obtain ⟨tests, same⟩ := Option.ite_none_right_eq_some.mp aimed
    simp only [Bool.and_eq_true, old, Bool.not_eq_true', decide_eq_false_iff_not] at tests
    refine ⟨file, List.mem_cons_self, Option.some.inj same, ?_⟩
    simp only [began]
    omega
  · cases aimed

variable [DecidableEq π]

/-- A turn of the loop that has not come to its limit: what becomes of a file, and the total size
after it. The removal of a file that is gone fails, and any removal may.
-/
def pass (config : Config π) (fs : FileSystem π UInt8) (now : Nat) (file : FileInfo π)
    (totalSize : Int) (outcome : Outcome)
    : Option (FileSystem π UInt8 × Fate × Int) :=
  if !old config now file.atime then
    some (fs, .young, totalSize)
  else
    match outcome with
    | .fail _ => some (fs, .refused, totalSize)
    | .ok =>
        (fs.remove file.path).map (fun fs' => (fs', .removed, addSize totalSize (-file.size)))

/-- One step of a cleanup on the filesystem. -/
def step (config : Config π) (fs : FileSystem π UInt8)
    : Cleanup π → Action π → Option (FileSystem π UInt8 × Cleanup π)
  | .idle, .lock => some (fs, .walking [] 0)
  | .walking files totalSize, .visit path =>
      if config.inRoot path && files.all (fun file => file.path != path) then
        (fs.names path).map (fun inode =>
          let info := ⟨path, (fs.contents inode).length, fs.atimes inode⟩
          (fs, .walking (files ++ [info]) (addSize totalSize info.size)))
      else
        none
  | .walking _ _, .walkFails => some (fs, .idle)
  | .walking _ totalSize, .withinLimit =>
      if totalSize ≤ config.maxSize then some (fs, .idle) else none
  | .walking files totalSize, .sort sorted =>
      if config.maxSize < totalSize && sorted.isPerm files && byAge sorted then
        some (fs, .evicting fs.clock sorted totalSize)
      else
        none
  | .evicting _ [] _, .evict _ => some (fs, .idle)
  | .evicting now (file :: rest) totalSize, .evict outcome =>
      if totalSize ≤ config.maxSize then
        some (fs, .idle)
      else
        (pass config fs now file totalSize outcome).map (fun next =>
          (next.1, .evicting now rest next.2.2))
  | _, _ => none

variable {config : Config π} {fs fs' : FileSystem π UInt8} {c c' : Cleanup π}
variable {action : Action π}

theorem pass_cases {now : Nat} {file : FileInfo π} {totalSize totalSize' : Int} {fate : Fate}
    {outcome : Outcome}
    (passed : pass config fs now file totalSize outcome = some (fs', fate, totalSize'))
    : (fate = .young ∧ old config now file.atime = false ∧ fs' = fs ∧ totalSize' = totalSize)
      ∨ (fate = .refused ∧ fs' = fs ∧ totalSize' = totalSize)
      ∨ (fate = .removed ∧ outcome = .ok ∧ old config now file.atime = true
        ∧ fs.remove file.path = some fs' ∧ totalSize' = addSize totalSize (-file.size)) := by
  unfold pass at passed
  split at passed
  next young =>
    cases passed
    exact .inl ⟨rfl, by simpa using young, rfl, rfl⟩
  next aged =>
    split at passed
    next =>
      cases passed
      exact .inr (.inl ⟨rfl, rfl, rfl⟩)
    next =>
      obtain ⟨_, removed, same⟩ := Option.map_eq_some_iff.mp passed
      cases same
      exact .inr (.inr ⟨rfl, rfl, by simpa using aged, removed, rfl⟩)

/-- A turn in which nothing can be removed. -/
theorem pass_refused (config : Config π) (fs : FileSystem π UInt8) (now : Nat) (file : FileInfo π)
    (totalSize : Int) (err : GoError)
    : ∃ fate, pass config fs now file totalSize (.fail err) = some (fs, fate, totalSize) := by
  unfold pass
  split
  · exact ⟨_, rfl⟩
  · exact ⟨_, rfl⟩

def Seen (fs : FileSystem π UInt8) (c : Cleanup π) (file : FileInfo π) : Prop :=
  file ∈ c.listed
    ∨ ∃ inode, fs.names file.path = some inode ∧ file.atime = fs.atimes inode

inductive Effect (config : Config π) (fs : FileSystem π UInt8) (c : Cleanup π)
    : Action π → FileSystem π UInt8 → Cleanup π → Prop
  | looks {action : Action π} {next : Cleanup π}
    (seen : ∀ file ∈ next.listed, Seen fs c file)
    (time : next.began ≤ max c.began fs.clock)
    : Effect config fs c action fs next
  | removes {path : π} {fs' : FileSystem π UInt8} {next : Cleanup π}
    (aimed : c.target config = some path) (removed : fs.remove path = some fs')
    (seen : ∀ file ∈ next.listed, Seen fs c file) (time : next.began ≤ max c.began fs.clock)
    : Effect config fs c (.evict .ok) fs' next

theorem step_effect (taken : step config fs c action = some (fs', c'))
    : Effect config fs c action fs' c' := by
  unfold step at taken
  split at taken
  · cases taken
    exact .looks nofun (Nat.zero_le _)
  · next files totalSize path =>
    obtain ⟨_, listed⟩ := Option.ite_none_right_eq_some.mp taken
    obtain ⟨inode, found, same⟩ := Option.map_eq_some_iff.mp listed
    cases same
    refine .looks ?_ (Nat.zero_le _)
    intro file member
    rcases List.mem_append.mp member with earlier | new
    · exact .inl earlier
    · obtain rfl := List.mem_singleton.mp new
      exact .inr ⟨inode, found, rfl⟩
  · cases taken
    exact .looks nofun (Nat.zero_le _)
  · obtain ⟨_, same⟩ := Option.ite_none_right_eq_some.mp taken
    cases same
    exact .looks nofun (Nat.zero_le _)
  · next files totalSize sorted =>
    obtain ⟨tests, same⟩ := Option.ite_none_right_eq_some.mp taken
    cases same
    simp only [Bool.and_eq_true, List.isPerm_iff] at tests
    refine .looks ?_ (Nat.le_max_right _ _)
    intro file member
    exact .inl (tests.1.2.mem_iff.mp member)
  · cases taken
    exact .looks nofun (Nat.zero_le _)
  · next now file rest totalSize outcome =>
    have later : ∀ other ∈ rest, Seen fs (.evicting now (file :: rest) totalSize) other :=
      fun other member => .inl (List.mem_cons_of_mem _ member)
    split at taken
    · cases taken
      exact .looks nofun (Nat.zero_le _)
    · next large =>
      obtain ⟨⟨_, fate, _⟩, passed, same⟩ := Option.map_eq_some_iff.mp taken
      cases same
      rcases pass_cases passed with ⟨-, -, rfl, -⟩ | ⟨-, rfl, -⟩ | ⟨-, rfl, aged, removed, -⟩
      · exact .looks later (Nat.le_max_left _ _)
      · exact .looks later (Nat.le_max_left _ _)
      · refine .removes ?_ removed later (Nat.le_max_left _ _)
        simp only [target, aged, Int.not_le.mp large, decide_true, Bool.and_self, if_true]
  · cases taken

end Cleanup

end GoREgo.Janitor
