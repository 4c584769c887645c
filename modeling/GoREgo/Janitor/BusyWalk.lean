import GoREgo.Janitor.Eviction
import GoREgo.Storage.Names
import Mathlib.Logic.Hydra

/-! `Cleanup` on a cache in use. `filepath.Walk` lists a directory and then calls `Lstat` on each
entry, while the calls of the store create, rename and remove their temporary files. The callback
returns the error of an entry that is gone, which ends the walk and the cleanup.
-/

namespace GoREgo.Janitor.Busy

open Lib LocalStore Disk

variable {Call Src : Type}

inductive Tier
  | cas
  | ac
deriving DecidableEq, Repr

inductive Dir
  | root
  | top (tier : Tier)
  | fan (tier : Tier) (first : String)
  | shard (tier : Tier) (first second : String)
deriving DecidableEq, Repr

namespace Dir

def parent : Dir → Option Dir
  | .root => none
  | .top _ => some .root
  | .fan tier _ => some (.top tier)
  | .shard tier first _ => some (.fan tier first)

def height : Dir → Nat
  | .root => 3
  | .top _ => 2
  | .fan _ _ => 1
  | .shard _ _ _ => 0

def ofHash (tier : Tier) (hash : String) : Dir :=
  .shard tier (String.ofList (hash.toList.take 2))
    (String.ofList ((hash.toList.drop 2).take 2))

theorem height_lt {dir above : Dir} (inside : dir.parent = some above)
    : dir.height < above.height := by
  cases dir with
  | root => cases inside
  | top | fan | shard =>
      obtain rfl := Option.some.inj inside
      exact Nat.lt_succ_self _

end Dir

inductive Entry (Call Src : Type)
  | directory (dir : Dir)
  | file (path : Path Call Src)
deriving DecidableEq, Repr

/-- The directory that an entry is in. A temporary file is beside the file it becomes, and
sources lie elsewhere.
-/
def Entry.parent (world : World Call Src) : Entry Call Src → Option Dir
  | .directory dir => dir.parent
  | .file (.cas hash) => some (.ofHash .cas hash)
  | .file (.ac hash) => some (.ofHash .ac hash)
  | .file (.temp call) =>
      match world.request call with
      | .put digest _ | .putFile digest _ => some (.ofHash .cas digest.hash)
      | .updateActionResult digest _ => some (.ofHash .ac digest.hash)
      | .get _ | .getActionResult _ => none
  | .file (.source _) => none

/-- A call of the walk that is still to be made. -/
inductive Task (Call Src : Type)
  | lstat (entry : Entry Call Src)
  | readDir (dir : Dir)
deriving DecidableEq, Repr

/-- Where `Cleanup` is. A walk has its calls to make, in order; the loop has the files it has
passed, with their fates, and the ones ahead.
-/
inductive Sweep (Call Src : Type)
  | idle
  | walking (todo : List (Task Call Src)) (files : List (FileInfo (Path Call Src)))
    (totalSize : Int)
  | evicting (now : Nat) (passed : List (FileInfo (Path Call Src) × Fate))
    (rest : List (FileInfo (Path Call Src))) (totalSize : Int)
  | finished (now : Nat) (passed : List (FileInfo (Path Call Src) × Fate))
    (rest : List (FileInfo (Path Call Src)))
  | failed (err : GoError)
deriving DecidableEq, Repr

/-- The store with its calls, its directories, and the janitor. -/
structure State (Call Src : Type) where
  store : Disk.State Call Src
  dirs : List Dir
  sweep : Sweep Call Src

/-- A step of the store, a directory made by a `MkdirAll`, or a step of `Cleanup`: it locks its
mutex, makes a call of its walk, sorts the files, or takes a turn of its loop. A listing may miss
what appears while it is read.
-/
inductive Label (Call Src : Type)
  | store (label : Disk.Label Call Src)
  | mkdir (dir : Dir)
  | lock
  | lstat (outcome : Outcome)
  | readDir (listing : Except GoError (List (Entry Call Src)))
  | walked (sorted : List (FileInfo (Path Call Src)))
  | turn (outcome : Outcome)

/-- The error of `Lstat` for an entry that is gone. -/
def notExist : GoError := .plain "no such file or directory"

section Steps

variable [DecidableEq Call] [DecidableEq Src]
variable (world : World Call Src) (config : Config (Path Call Src))

def Entry.present (fs : Fs Call Src) (dirs : List Dir) : Entry Call Src → Bool
  | .directory dir => dir ∈ dirs
  | .file path => (fs.names path).isSome

/-- `Lstat`, and what the walk does with it: it goes into a directory, and the callback adds up
files. The callback returns an error, which ends the walk.
-/
def lstat (fs : Fs Call Src) (dirs : List Dir) : Sweep Call Src → Outcome → Option (Sweep Call Src)
  | .walking (.lstat _ :: _) _ _, .fail err => some (.failed err)
  | .walking (.lstat (.directory dir) :: todo) files totalSize, .ok =>
      if dir ∈ dirs then
        some (.walking (.readDir dir :: todo) files totalSize)
      else
        some (.failed notExist)
  | .walking (.lstat (.file path) :: todo) files totalSize, .ok =>
      match fs.names path with
      | none => some (.failed notExist)
      | some inode =>
          let size := (fs.contents inode).length
          some (.walking todo (files ++ [⟨path, size, fs.atimes inode⟩]) (addSize totalSize size))
  | _, _ => none

/-- `readDirNames`, and the calls that its names lead to. -/
def readDir (fs : Fs Call Src) (dirs : List Dir)
    : Sweep Call Src → Except GoError (List (Entry Call Src)) → Option (Sweep Call Src)
  | .walking (.readDir _ :: _) _ _, .error err => some (.failed err)
  | .walking (.readDir dir :: todo) files totalSize, .ok entries =>
      if entries.Nodup
          ∧ ∀ entry ∈ entries, entry.parent world = some dir ∧ entry.present fs dirs = true then
        some (.walking (entries.map .lstat ++ todo) files totalSize)
      else
        none
  | _, _ => none

def walked (clock : Nat) (sorted : List (FileInfo (Path Call Src)))
    : Sweep Call Src → Option (Sweep Call Src)
  | .walking [] files totalSize =>
      if totalSize ≤ config.maxSize then
        some (.finished clock [] files)
      else if sorted.isPerm files && Cleanup.byAge sorted then
        some (.evicting clock [] sorted totalSize)
      else
        none
  | _ => none

/-- One turn of the loop. -/
def turn (fs : Fs Call Src) : Sweep Call Src → Outcome → Option (Fs Call Src × Sweep Call Src)
  | .evicting now passed [] _, _ => some (fs, .finished now passed [])
  | .evicting now passed (file :: rest) totalSize, outcome =>
      if totalSize ≤ config.maxSize then
        some (fs, .finished now passed (file :: rest))
      else
        (Cleanup.pass config fs now file totalSize outcome).map (fun next =>
          (next.1, .evicting now (passed ++ [(file, next.2.1)]) rest next.2.2))
  | _, _ => none

def Sweep.running : Sweep Call Src → Bool
  | .walking _ _ _ | .evicting _ _ _ _ => true
  | .idle | .finished _ _ _ | .failed _ => false

def step (s : State Call Src) : Label Call Src → Option (State Call Src)
  | .store label => (Disk.step world s.store label).map (fun store => { s with store })
  | .mkdir dir => some { s with dirs := dir :: s.dirs }
  | .lock =>
      if s.sweep.running then none
      else some { s with sweep := .walking [.lstat (.directory .root)] [] 0 }
  | .lstat outcome =>
      (lstat s.store.fs s.dirs s.sweep outcome).map (fun sweep => { s with sweep })
  | .readDir listing =>
      (readDir world s.store.fs s.dirs s.sweep listing).map (fun sweep => { s with sweep })
  | .walked sorted =>
      (walked config s.store.fs.clock sorted s.sweep).map (fun sweep => { s with sweep })
  | .turn outcome =>
      (turn config s.store.fs s.sweep outcome).map (fun next =>
        { s with store := { s.store with fs := next.1 }, sweep := next.2 })

/-- A new store has its root directory, as `NewLocalStore` leaves it, and no files. -/
def machine : Machine (State Call Src) (Label Call Src) where
  initial s := (Disk.machine world).initial s.store ∧ .root ∈ s.dirs ∧ s.sweep = .idle
  step := step world config

end Steps

def Label.calm : Label Call Src → Bool
  | .lstat (.fail _) | .readDir (.error _) => false
  | _ => true

def Label.own : Label Call Src → Bool
  | .store _ | .mkdir _ => false
  | _ => true

section Guards

variable [DecidableEq Call] [DecidableEq Src]

def Sweep.awaits (sweep : Sweep Call Src) (path : Path Call Src) : Bool :=
  match sweep with
  | .walking todo _ _ => .lstat (.file path) ∈ todo
  | _ => false

/-- No call renames or removes its temporary file between its listing and its `Lstat`. -/
def undisturbed (s : State Call Src) : Label Call Src → Bool
  | .store (.disk call .ok) =>
      !(s.sweep.awaits (.temp call) && (s.store.pcs call).unlinks)
  | _ => true

/-- An `int64` holds the total with the file that `Lstat` finds. -/
def fits (s : State Call Src) : Label Call Src → Bool
  | .lstat .ok =>
      match s.sweep with
      | .walking (.lstat (.file path) :: _) _ totalSize =>
          (s.store.fs.names path).all (fun inode =>
            totalSize + (s.store.fs.contents inode).length < 2 ^ 63)
      | _ => true
  | _ => true

/-- No other error hinders the cleanup, and no entry is taken away from its walk. -/
def Unhindered (s : State Call Src) (label : Label Call Src) : Prop :=
  label.calm = true ∧ undisturbed s label = true ∧ fits s label = true

instance (s : State Call Src) (label : Label Call Src) : Decidable (Unhindered s label) :=
  inferInstanceAs (Decidable (_ ∧ _))

end Guards

variable {π : Type}

def left (passed : List (FileInfo π × Fate)) : List (FileInfo π) :=
  (passed.filter (fun one => one.2 != .removed)).map Prod.fst

@[simp] theorem left_nil : left ([] : List (FileInfo π × Fate)) = [] := rfl

theorem left_removed (passed : List (FileInfo π × Fate)) (file : FileInfo π)
    : left (passed ++ [(file, .removed)]) = left passed := by
  simp [left]

theorem left_kept (passed : List (FileInfo π × Fate)) (file : FileInfo π) {fate : Fate}
    (kept : fate ≠ .removed)
    : left (passed ++ [(file, fate)]) = left passed ++ [file] := by
  simp [left, kept]

theorem mem_left {passed : List (FileInfo π × Fate)} {file : FileInfo π}
    : file ∈ left passed ↔ (file, .refused) ∈ passed ∨ (file, .young) ∈ passed := by
  simp only [left, List.mem_map, List.mem_filter, bne_iff_ne]
  constructor
  · rintro ⟨⟨_, fate⟩, ⟨member, kept⟩, rfl⟩
    cases fate with
    | removed => exact absurd rfl kept
    | refused => exact Or.inl member
    | young => exact Or.inr member
  · rintro (member | member)
    · exact ⟨_, ⟨member, nofun⟩, rfl⟩
    · exact ⟨_, ⟨member, nofun⟩, rfl⟩

theorem total_append (files others : List (FileInfo π))
    : total (files ++ others) = total files + total others := by
  simp [total]

variable (world : World Call Src) (config : Config (Path Call Src))

/-- Of the files that the walk saw, those left are within the limit, or each of them is too young
or could not be removed.
-/
def Enforced (now : Nat) (passed : List (FileInfo (Path Call Src) × Fate))
    (rest : List (FileInfo (Path Call Src)))
    : Prop :=
  total (left passed ++ rest) ≤ config.maxSize
    ∨ ∀ file ∈ left passed ++ rest,
        Cleanup.old config now file.atime = false ∨ (file, .refused) ∈ passed

def Task.Finds (fs : Fs Call Src) (dirs : List Dir) : Task Call Src → Prop
  | .lstat (.directory dir) => dir ∈ dirs
  | .lstat (.file path) =>
      ((Entry.file path).parent world).isSome = true ∧ (fs.names path).isSome = true
  | .readDir dir => dir ∈ dirs

/-- The walk finds what it looks for, the total is that of the files seen and left, and a cleanup
that has finished has enforced the limit.
-/
def Sweep.Sound (fs : Fs Call Src) (dirs : List Dir) : Sweep Call Src → Prop
  | .idle => True
  | .walking todo files totalSize =>
      (∀ task ∈ todo, task.Finds world fs dirs) ∧ totalSize = total files ∧ totalSize < 2 ^ 63
  | .evicting now passed rest totalSize =>
      (∀ file, (file, Fate.young) ∈ passed → Cleanup.old config now file.atime = false)
      ∧ totalSize = total (left passed ++ rest) ∧ totalSize < 2 ^ 63
  | .finished now passed rest => Enforced config now passed rest
  | .failed _ => False

section Steps

variable [DecidableEq Call] [DecidableEq Src]
variable {world : World Call Src} {config : Config (Path Call Src)}
variable {fs fs' : Fs Call Src} {dirs : List Dir} {sweep next : Sweep Call Src}
variable {todo : List (Task Call Src)} {files : List (FileInfo (Path Call Src))}
variable {passed : List (FileInfo (Path Call Src) × Fate)}
variable {rest : List (FileInfo (Path Call Src))} {totalSize : Int} {now : Nat}

theorem finds_store {store store' : Disk.State Call Src} {label : Disk.Label Call Src}
    (taken : Disk.step world store label = some store')
    (quiet : undisturbed ⟨store, dirs, .walking todo files totalSize⟩ (.store label) = true)
    {task : Task Call Src} (member : task ∈ todo) (finds : task.Finds world store.fs dirs)
    : task.Finds world store'.fs dirs := by
  match task with
  | .lstat (.directory dir) => exact finds
  | .readDir dir => exact finds
  | .lstat (.file path) =>
      obtain ⟨inside, there⟩ := finds
      refine ⟨inside, step_keeps taken ?_ ?_ there⟩
      · rintro src rfl
        cases inside
      · rintro call rfl
        by_cases same : path = .temp call
        · subst same
          simp only [undisturbed, Sweep.awaits, member, decide_true, Bool.true_and,
            Bool.not_eq_true'] at quiet
          exact Or.inr quiet
        · exact Or.inl same

omit [DecidableEq Call] [DecidableEq Src] in
theorem sound_lstat (sound : sweep.Sound world config fs dirs)
    (room : ∀ todo path files totalSize inode,
      sweep = .walking (.lstat (.file path) :: todo) files totalSize →
      fs.names path = some inode → totalSize + (fs.contents inode).length < 2 ^ 63)
    (moved : lstat fs dirs sweep .ok = some next)
    : next.Sound world config fs dirs := by
  unfold lstat at moved
  split at moved
  · contradiction
  · next dir todo files totalSize _ =>
    obtain ⟨finds, sum, small⟩ := sound
    obtain ⟨here, later⟩ := List.forall_mem_cons.mp finds
    have known : dir ∈ dirs := here
    rw [if_pos known] at moved
    obtain rfl := Option.some.inj moved
    exact ⟨List.forall_mem_cons.mpr ⟨here, later⟩, sum, small⟩
  · next path todo files totalSize _ =>
    obtain ⟨finds, sum, small⟩ := sound
    obtain ⟨here, later⟩ := List.forall_mem_cons.mp finds
    obtain ⟨inode, found⟩ := Option.isSome_iff_exists.mp here.2
    rw [found] at moved
    obtain rfl := Option.some.inj moved
    have large := room todo path files totalSize inode rfl found
    have seen := total_nonneg files
    have added : addSize totalSize (fs.contents inode).length
        = totalSize + (fs.contents inode).length := by
      refine addSize_eq ?_ large
      omega
    refine ⟨later, ?_, added ▸ large⟩
    rw [added, sum, total_append]
    simp [total]
  · cases moved

theorem sound_readDir {entries : List (Entry Call Src)}
    (sound : sweep.Sound world config fs dirs)
    (moved : readDir world fs dirs sweep (.ok entries) = some next)
    : next.Sound world config fs dirs := by
  unfold readDir at moved
  split at moved
  · contradiction
  · next dir todo files totalSize listed same =>
    obtain rfl := Except.ok.inj same
    obtain ⟨⟨-, there⟩, rfl⟩ := Option.ite_some_none_eq_some.mp moved
    obtain ⟨finds, sum, small⟩ := sound
    refine ⟨fun task member => ?_, sum, small⟩
    rcases List.mem_append.mp member with new | later
    · obtain ⟨entry, among, rfl⟩ := List.mem_map.mp new
      obtain ⟨inside, present⟩ := there entry among
      cases entry with
      | directory inner =>
          have known : inner ∈ dirs := of_decide_eq_true present
          exact known
      | file path => exact ⟨Option.isSome_of_mem inside, present⟩
    · exact finds task (List.mem_cons_of_mem _ later)
  · cases moved

theorem sound_walked {clock : Nat} {sorted : List (FileInfo (Path Call Src))}
    (sound : sweep.Sound world config fs dirs)
    (moved : walked config clock sorted sweep = some next)
    : next.Sound world config fs dirs := by
  unfold walked at moved
  split at moved
  · next files totalSize =>
    obtain ⟨-, sum, small⟩ := sound
    split at moved
    · next within =>
      obtain rfl := Option.some.inj moved
      exact Or.inl (by simpa [← sum] using within)
    · obtain ⟨tests, rfl⟩ := Option.ite_some_none_eq_some.mp moved
      rw [Bool.and_eq_true, List.isPerm_iff] at tests
      exact ⟨nofun, sum.trans (total_perm tests.1).symm, small⟩
  · cases moved

theorem sound_turn {outcome : Outcome} (sound : sweep.Sound world config fs dirs)
    (moved : turn config fs sweep outcome = some (fs', next))
    : next.Sound world config fs' dirs := by
  unfold turn at moved
  split at moved
  · next now passed _ _ =>
    obtain ⟨rfl, rfl⟩ := Prod.mk.inj (Option.some.inj moved)
    refine Or.inr (fun file member => ?_)
    rw [List.append_nil, mem_left] at member
    exact member.symm.imp_left (sound.1 file)
  · next outcome now passed file rest totalSize =>
    obtain ⟨fates, sum, small⟩ := sound
    -- a file that stays is passed with its fate, and the total is the same
    have stays {fate : Fate} (kept : fate ≠ .removed)
        (aged : fate = .young → Cleanup.old config now file.atime = false)
        : (Sweep.evicting now (passed ++ [(file, fate)]) rest totalSize).Sound world config
            fs dirs := by
      refine ⟨fun other member => ?_, ?_, small⟩
      · rcases List.mem_append.mp member with before | new
        · exact fates other before
        · obtain ⟨rfl, rfl⟩ := Prod.mk.inj (List.mem_singleton.mp new)
          exact aged rfl
      · rw [sum, left_kept passed file kept, List.append_assoc]
        rfl
    split at moved
    · next within =>
      obtain ⟨rfl, rfl⟩ := Prod.mk.inj (Option.some.inj moved)
      exact Or.inl (sum ▸ within)
    · obtain ⟨⟨_, fate, _⟩, pass, same⟩ := Option.map_eq_some_iff.mp moved
      obtain ⟨rfl, rfl⟩ := Prod.mk.inj same
      dsimp only
      rcases Cleanup.pass_cases pass with
        ⟨rfl, young, rfl, rfl⟩ | ⟨rfl, rfl, rfl⟩ | ⟨rfl, -, -, -, rfl⟩
      · exact stays nofun (fun _ => young)
      · exact stays nofun nofun
      · have rested := total_nonneg (left passed ++ rest)
        rw [total_append, total_cons] at sum
        rw [total_append] at rested
        have less : addSize totalSize (-file.size) = totalSize + -file.size := by
          refine addSize_eq ?_ ?_ <;> omega
        refine ⟨fun other member => ?_, ?_, ?_⟩
        · rcases List.mem_append.mp member with before | new
          · exact fates other before
          · cases List.mem_singleton.mp new
        · rw [less, left_removed, total_append, sum]
          omega
        · rw [less]
          omega
  · cases moved

variable {s s' mid : State Call Src} {label : Label Call Src} {labels : List (Label Call Src)}

def Sound (world : World Call Src) (config : Config (Path Call Src)) (s : State Call Src)
    : Prop :=
  .root ∈ s.dirs ∧ s.sweep.Sound world config s.store.fs s.dirs

theorem Sound.step (sound : Sound world config s) (allowed : Unhindered s label)
    (taken : Busy.step world config s label = some s')
    : Sound world config s' := by
  obtain ⟨root, sweep⟩ := sound
  obtain ⟨calm, quiet, room⟩ := allowed
  cases label with
  | store label =>
      obtain ⟨store, moved, rfl⟩ := Option.map_eq_some_iff.mp taken
      refine ⟨root, ?_⟩
      cases here : s.sweep with
      | walking todo files totalSize =>
          rw [here] at sweep
          have still : undisturbed ⟨s.store, s.dirs, .walking todo files totalSize⟩
              (.store label) = true := by
            rw [← here]
            exact quiet
          exact ⟨fun task member => finds_store moved still member (sweep.1 task member), sweep.2⟩
      | idle | evicting | finished | failed =>
          rw [here] at sweep
          exact sweep
  | mkdir dir =>
      obtain rfl := Option.some.inj taken
      refine ⟨List.mem_cons_of_mem _ root, ?_⟩
      cases here : s.sweep with
      | walking todo files totalSize =>
          rw [here] at sweep
          refine ⟨fun task member => ?_, sweep.2⟩
          have finds := sweep.1 task member
          match task with
          | .lstat (.directory _) => exact List.mem_cons_of_mem _ finds
          | .lstat (.file _) => exact finds
          | .readDir _ => exact List.mem_cons_of_mem _ finds
      | idle | evicting | finished | failed =>
          rw [here] at sweep
          exact sweep
  | lock =>
      obtain ⟨-, same⟩ := Option.ite_none_left_eq_some.mp taken
      obtain rfl := Option.some.inj same
      refine ⟨root, List.forall_mem_singleton.mpr root, rfl, ?_⟩
      decide
  | lstat outcome =>
      obtain ⟨next, moved, rfl⟩ := Option.map_eq_some_iff.mp taken
      cases outcome with
      | fail err => cases calm
      | ok =>
          refine ⟨root, sound_lstat sweep ?_ moved⟩
          intro todo path files totalSize inode here found
          have found : s.store.fs.names path = some inode := found
          simpa [fits, here, found] using room
  | readDir listing =>
      obtain ⟨next, moved, rfl⟩ := Option.map_eq_some_iff.mp taken
      cases listing with
      | error err => cases calm
      | ok entries => exact ⟨root, sound_readDir sweep moved⟩
  | walked sorted =>
      obtain ⟨next, moved, rfl⟩ := Option.map_eq_some_iff.mp taken
      exact ⟨root, sound_walked sweep moved⟩
  | turn outcome =>
      obtain ⟨next, moved, rfl⟩ := Option.map_eq_some_iff.mp taken
      exact ⟨root, sound_turn sweep moved⟩

theorem sound_inductive (world : World Call Src) (config : Config (Path Call Src))
    : (machine world config).Inductive Unhindered (Sound world config) where
  start s initial := by
    refine ⟨initial.2.1, ?_⟩
    rw [initial.2.2]
    trivial
  keeps _ _ _ sound allowed taken := sound.step allowed taken

def Sweep.isFinished : Sweep Call Src → Bool
  | .finished _ _ _ => true
  | _ => false

def Others (s : State Call Src) (label : Label Call Src) : Prop :=
  label.own = false ∧ Unhindered s label

/-- Whatever the others do in between, the cleanup always has a next step, and it returns without
an error after finitely many of them.
-/
inductive Completes (world : World Call Src) (config : Config (Path Call Src))
    : State Call Src → Prop
  | finished {s : State Call Src} (done : s.sweep.isFinished = true) : Completes world config s
  | running {s : State Call Src}
    (enabled : ∀ labels mid, (machine world config).Run Others s labels mid →
      ∃ label s', label.own = true ∧ label.calm = true
        ∧ step world config mid label = some s')
    (next : ∀ labels mid label s', (machine world config).Run Others s labels mid →
      label.own = true → Unhindered mid label → step world config mid label = some s' →
        Completes world config s')
    : Completes world config s

theorem step_others (other : Others s label) (taken : step world config s label = some s')
    : s'.sweep = s.sweep := by
  obtain ⟨foreign, -⟩ := other
  cases label with
  | store label =>
      obtain ⟨store, -, rfl⟩ := Option.map_eq_some_iff.mp taken
      rfl
  | mkdir dir =>
      obtain rfl := Option.some.inj taken
      rfl
  | lock | lstat | readDir | walked | turn => cases foreign

theorem run_others (run : (machine world config).Run Others s labels mid)
    (sound : Sound world config s)
    : mid.sweep = s.sweep ∧ Sound world config mid := by
  have keeps (s₁ : State Call Src) (label : Label Call Src) (s₂ : State Call Src)
      (holds : s₁.sweep = s.sweep ∧ Sound world config s₁) (other : Others s₁ label)
      (taken : (machine world config).step s₁ label = some s₂)
      : s₂.sweep = s.sweep ∧ Sound world config s₂ :=
    ⟨(step_others other taken).trans holds.1, holds.2.step other.2 taken⟩
  exact run.preserves keeps ⟨rfl, sound⟩

/-- What a turn of the loop leads to: the end, or the same loop with one file fewer ahead. -/
theorem turn_cases {outcome : Outcome}
    (moved : turn config fs (.evicting now passed rest totalSize) outcome = some (fs', next))
    : next.isFinished = true
      ∨ ∃ file later passed' totalSize', rest = file :: later
          ∧ next = .evicting now passed' later totalSize' := by
  cases rest with
  | nil =>
      obtain ⟨-, rfl⟩ := Prod.mk.inj (Option.some.inj moved)
      exact Or.inl rfl
  | cons file later =>
      unfold turn at moved
      dsimp only at moved
      split at moved
      · obtain ⟨-, rfl⟩ := Prod.mk.inj (Option.some.inj moved)
        exact Or.inl rfl
      · obtain ⟨_, _, same⟩ := Option.map_eq_some_iff.mp moved
        obtain ⟨-, rfl⟩ := Prod.mk.inj same
        exact Or.inr ⟨file, later, _, _, rfl, rfl⟩

theorem enabled_evicting (here : s.sweep = .evicting now passed rest totalSize)
    : ∃ label s', label.own = true ∧ label.calm = true ∧ step world config s label = some s' := by
  have moves : ∃ next, turn config s.store.fs s.sweep (.fail notExist) = some next := by
    rw [here]
    cases rest with
    | nil => exact ⟨_, rfl⟩
    | cons file later =>
        obtain ⟨fate, passes⟩ :=
          Cleanup.pass_refused config s.store.fs now file totalSize notExist
        simp only [turn, passes]
        split
        · exact ⟨_, rfl⟩
        · exact ⟨_, rfl⟩
  obtain ⟨next, moved⟩ := moves
  exact ⟨.turn (.fail notExist), _, rfl, rfl, Option.map_eq_some_iff.mpr ⟨next, moved, rfl⟩⟩

theorem completes_of (sound : Sound world config s)
    (enabled : ∀ mid : State Call Src, mid.sweep = s.sweep →
      ∃ label s', label.own = true ∧ label.calm = true ∧ step world config mid label = some s')
    (next : ∀ (mid s' : State Call Src) (label : Label Call Src), mid.sweep = s.sweep →
      label.own = true → step world config mid label = some s' → Sound world config s' →
        Completes world config s')
    : Completes world config s := by
  refine .running (fun labels mid run => ?_) (fun labels mid label s' run own allowed taken => ?_)
  · exact enabled mid (run_others run sound).1
  · obtain ⟨same, still⟩ := run_others run sound
    exact next mid s' label same own taken (still.step allowed taken)

theorem step_evicting
    (here : s.sweep = .evicting now passed rest totalSize) (own : label.own = true)
    (taken : step world config s label = some s')
    : ∃ outcome fs', turn config s.store.fs (.evicting now passed rest totalSize) outcome
        = some (fs', s'.sweep) := by
  cases label with
  | store | mkdir => cases own
  | lock => simp [step, here, Sweep.running] at taken
  | lstat outcome => simp [step, here, lstat] at taken
  | readDir listing => simp [step, here, readDir] at taken
  | walked sorted => simp [step, here, walked] at taken
  | turn outcome =>
      obtain ⟨⟨fs', next⟩, moved, rfl⟩ := Option.map_eq_some_iff.mp taken
      rw [here] at moved
      exact ⟨outcome, fs', moved⟩

theorem completes_evicting
    (sound : Sound world config s) (here : s.sweep = .evicting now passed rest totalSize)
    : Completes world config s := by
  induction rest generalizing s passed totalSize with
  | nil =>
      refine completes_of sound (fun mid same => enabled_evicting (same.trans here)) ?_
      intro mid s' label same own taken later
      obtain ⟨outcome, fs', moved⟩ := step_evicting (same.trans here) own taken
      rcases turn_cases moved with done | ⟨_, _, _, _, absent, _⟩
      · exact .finished done
      · cases absent
  | cons file rest ih =>
      refine completes_of sound (fun mid same => enabled_evicting (same.trans here)) ?_
      intro mid s' label same own taken later
      obtain ⟨outcome, fs', moved⟩ := step_evicting (same.trans here) own taken
      rcases turn_cases moved with done | ⟨_, _, _, _, split, there⟩
      · exact .finished done
      · obtain ⟨-, rfl⟩ := List.cons.inj split
        exact ih later there

def Task.weight : Task Call Src → Nat
  | .lstat (.directory dir) => 2 * dir.height + 2
  | .readDir dir => 2 * dir.height + 1
  | .lstat (.file _) => 0

def weights (todo : List (Task Call Src)) : Multiset Nat :=
  todo.map Task.weight

omit [DecidableEq Call] [DecidableEq Src] in
theorem weights_expand {task : Task Call Src} {new rest : List (Task Call Src)}
    (lighter : ∀ one ∈ new, one.weight < task.weight)
    : Relation.CutExpand (· < ·) (weights (new ++ rest)) (weights (task :: rest)) := by
  have sum : weights (new ++ rest) = weights new + weights rest := by
    simp [weights]
  have first : weights (task :: rest) = {task.weight} + weights rest := rfl
  rw [sum, first, Relation.cutExpand_add_right]
  refine Relation.cutExpand_singleton (fun weight member => ?_)
  obtain ⟨one, among, rfl⟩ := List.mem_map.mp (Multiset.mem_coe.mp member)
  exact lighter one among

def Sweep.Onward (task : Task Call Src) (rest : List (Task Call Src)) (sweep : Sweep Call Src)
    : Prop :=
  ∃ new files totalSize, (∀ one ∈ new, one.weight < task.weight)
    ∧ sweep = .walking (new ++ rest) files totalSize

omit [DecidableEq Call] [DecidableEq Src] in
theorem lstat_cases {outcome : Outcome}
    (moved : lstat fs dirs (.walking todo files totalSize) outcome = some next)
    : (∃ err, next = .failed err)
      ∨ ∃ task rest, todo = task :: rest ∧ next.Onward task rest := by
  unfold lstat at moved
  split at moved
  · obtain rfl := Option.some.inj moved
    exact Or.inl ⟨_, rfl⟩
  · next dir rest files' totalSize' same =>
    cases same
    split at moved
    · obtain rfl := Option.some.inj moved
      refine Or.inr ⟨_, rest, rfl, [.readDir dir], files, totalSize, ?_, rfl⟩
      exact List.forall_mem_singleton.mpr (Nat.lt_succ_self _)
    · obtain rfl := Option.some.inj moved
      exact Or.inl ⟨_, rfl⟩
  · next path rest files' totalSize' same =>
    cases same
    split at moved
    · obtain rfl := Option.some.inj moved
      exact Or.inl ⟨_, rfl⟩
    · obtain rfl := Option.some.inj moved
      exact Or.inr ⟨_, rest, rfl, [], _, _, nofun, rfl⟩
  · cases moved

theorem readDir_cases {listing : Except GoError (List (Entry Call Src))}
    (moved : readDir world fs dirs (.walking todo files totalSize) listing = some next)
    : (∃ err, next = .failed err)
      ∨ ∃ task rest, todo = task :: rest ∧ next.Onward task rest := by
  unfold readDir at moved
  split at moved
  · obtain rfl := Option.some.inj moved
    exact Or.inl ⟨_, rfl⟩
  · next dir rest files' totalSize' entries same =>
    cases same
    obtain ⟨⟨-, inside⟩, rfl⟩ := Option.ite_some_none_eq_some.mp moved
    refine Or.inr ⟨_, rest, rfl, entries.map .lstat, files, totalSize, ?_, rfl⟩
    intro one member
    obtain ⟨entry, among, rfl⟩ := List.mem_map.mp member
    cases entry with
    | directory inner =>
        have lower := Dir.height_lt (inside _ among).1
        simp only [Task.weight]
        omega
    | file path => exact Nat.succ_pos _
  · cases moved

theorem step_walking (here : s.sweep = .walking todo files totalSize) (own : label.own = true)
    (taken : step world config s label = some s')
    : (∃ err, s'.sweep = .failed err)
      ∨ s'.sweep.isFinished = true
      ∨ (∃ now passed rest size, s'.sweep = .evicting now passed rest size)
      ∨ ∃ task rest, todo = task :: rest ∧ s'.sweep.Onward task rest := by
  cases label with
  | store | mkdir => cases own
  | lock => simp [step, here, Sweep.running] at taken
  | lstat outcome =>
      obtain ⟨next, moved, rfl⟩ := Option.map_eq_some_iff.mp taken
      rw [here] at moved
      exact (lstat_cases moved).imp_right (fun onward => Or.inr (Or.inr onward))
  | readDir listing =>
      obtain ⟨next, moved, rfl⟩ := Option.map_eq_some_iff.mp taken
      rw [here] at moved
      exact (readDir_cases moved).imp_right (fun onward => Or.inr (Or.inr onward))
  | walked sorted =>
      obtain ⟨next, moved, rfl⟩ := Option.map_eq_some_iff.mp taken
      rw [here] at moved
      unfold walked at moved
      split at moved
      · split at moved
        · obtain rfl := Option.some.inj moved
          exact Or.inr (Or.inl rfl)
        · obtain ⟨-, rfl⟩ := Option.ite_some_none_eq_some.mp moved
          exact Or.inr (Or.inr (Or.inl ⟨_, _, _, _, rfl⟩))
      · cases moved
  | turn outcome => simp [step, here, turn] at taken

theorem enabled_walking (here : s.sweep = .walking todo files totalSize)
    : ∃ label s', label.own = true ∧ label.calm = true ∧ step world config s label = some s' := by
  match todo with
  | .lstat entry :: rest =>
      have moves : ∃ next, lstat s.store.fs s.dirs s.sweep .ok = some next := by
        rw [here]
        unfold lstat
        cases entry with
        | directory dir =>
            dsimp only
            split
            · exact ⟨_, rfl⟩
            · exact ⟨_, rfl⟩
        | file path =>
            dsimp only
            split
            · exact ⟨_, rfl⟩
            · exact ⟨_, rfl⟩
      obtain ⟨next, moved⟩ := moves
      exact ⟨.lstat .ok, _, rfl, rfl, Option.map_eq_some_iff.mpr ⟨next, moved, rfl⟩⟩
  | .readDir dir :: rest =>
      have moved : readDir world s.store.fs s.dirs s.sweep (.ok [])
          = some (.walking rest files totalSize) := by
        simp [here, readDir]
      exact ⟨.readDir (.ok []), _, rfl, rfl, Option.map_eq_some_iff.mpr ⟨_, moved, rfl⟩⟩
  | [] =>
      let sorted := files.insertionSort (fun older newer => older.atime ≤ newer.atime)
      have moves : ∃ next, walked config s.store.fs.clock sorted s.sweep = some next := by
        rw [here]
        unfold walked
        dsimp only
        split
        · exact ⟨_, rfl⟩
        · have perm : sorted.isPerm files = true :=
            List.isPerm_iff.mpr (List.perm_insertionSort _ files)
          have ordered : Cleanup.byAge sorted = true :=
            decide_eq_true (List.pairwise_insertionSort _ files)
          rw [perm, ordered]
          exact ⟨_, rfl⟩
      obtain ⟨next, moved⟩ := moves
      exact ⟨.walked sorted, _, rfl, rfl, Option.map_eq_some_iff.mpr ⟨next, moved, rfl⟩⟩

theorem completes_walking (sound : Sound world config s)
    (here : s.sweep = .walking todo files totalSize)
    : Completes world config s := by
  have founded : WellFounded (Relation.CutExpand (fun light heavy : Nat => light < heavy)) :=
    Nat.lt_wfRel.wf.cutExpand
  induction size : weights todo using founded.induction generalizing s todo files totalSize with
  | h _ ih =>
      refine completes_of sound (fun mid same => enabled_walking (same.trans here)) ?_
      intro mid s' label same own taken later
      rcases step_walking (same.trans here) own taken with
        ⟨err, broken⟩ | done | ⟨now, passed, rest, left, there⟩
          | ⟨task, rest, rfl, new, files', totalSize', lighter, there⟩
      · have failed := later.2
        rw [broken] at failed
        exact failed.elim
      · exact .finished done
      · exact completes_evicting later there
      · exact ih _ (size ▸ weights_expand lighter) later there rfl

/-- As long as no entry is renamed or removed between its listing and its `Lstat`, no other error
hinders the walk and the total fits an `int64`: a cleanup never fails, always completes, and has
then enforced the limit on the files that it saw.
-/
theorem size_limit_enforced (world : World Call Src) (config : Config (Path Call Src))
    (reached : (machine world config).Reachable Unhindered s)
    : (∀ err, s.sweep ≠ .failed err)
      ∧ (s.sweep.running = true → Completes world config s)
      ∧ ∀ now passed rest, s.sweep = .finished now passed rest →
          Enforced config now passed rest := by
  have sound := (sound_inductive world config).reachable reached
  refine ⟨fun err broken => ?_, fun running => ?_, fun now passed rest done => ?_⟩
  · have failed := sound.2
    rw [broken] at failed
    exact failed
  · cases here : s.sweep with
    | walking todo files totalSize => exact completes_walking sound here
    | evicting now passed rest totalSize => exact completes_evicting sound here
    | idle | finished | failed =>
        rw [here] at running
        cases running
  · have finished := sound.2
    rw [done] at finished
    exact finished

end Steps

def fresh (world : World Call Src) : State Call Src :=
  ⟨⟨.empty, fun _ => none, fun call => (world.request call).start⟩, [.root], .idle⟩

def twoPuts : World Bool Unit where
  request call := if call then .put ⟨"00ffbb", 1⟩ [2] else .put ⟨"00ffaa", 1⟩ [1]
  source _ := []
  links _ := none
  ends := no_links_end
  marshal _ := []
  unmarshal _ := .error notExist
  forceUpdateATime := false

def tightCache : Config (Path Bool Unit) := ⟨0, 30, fun _ => true⟩

def oldBlob : List (Label Bool Unit) :=
  [.mkdir (.top .cas), .mkdir (.fan .cas "00"), .mkdir (.shard .cas "00" "ff"),
    .store (.disk false .ok), .store (.disk false .ok), .store (.read false (.data [1])),
    .store (.read false (.error .eof)), .store (.disk false .ok), .store (.disk false .ok),
    .store (.disk false .ok), .store (.disk false .ok), .store (.tick 100)]

def walkDown : List (Label Bool Unit) :=
  [.lock, .lstat .ok, .readDir (.ok [.directory (.top .cas)]),
    .lstat .ok, .readDir (.ok [.directory (.fan .cas "00")]),
    .lstat .ok, .readDir (.ok [.directory (.shard .cas "00" "ff")]), .lstat .ok]

theorem oldBlob_evicted
    : ∃ s, (machine twoPuts tightCache).Reachable Unhindered s
        ∧ s.sweep = .finished 100 [(⟨.cas "00ffaa", 1, 0⟩, .removed)] []
        ∧ Enforced tightCache 100 [(⟨.cas "00ffaa", 1, 0⟩, .removed)] [] := by
  obtain ⟨s, run, tested⟩ := Machine.exists_run_of_execIf (machine twoPuts tightCache) Unhindered
    (fresh twoPuts)
    (oldBlob ++ walkDown ++ [.readDir (.ok [.file (.cas "00ffaa")]), .lstat .ok,
      .walked [⟨.cas "00ffaa", 1, 0⟩], .turn .ok, .turn .ok])
    (fun s => decide (s.sweep = .finished 100 [(⟨.cas "00ffaa", 1, 0⟩, .removed)] []))
    (by decide +kernel)
  have reached : (machine twoPuts tightCache).Reachable Unhindered s :=
    ⟨fresh twoPuts, _, ⟨rfl, List.mem_singleton_self _, rfl⟩, run⟩
  have done : s.sweep = .finished 100 [(⟨.cas "00ffaa", 1, 0⟩, .removed)] [] :=
    of_decide_eq_true tested
  exact ⟨s, reached, done, (size_limit_enforced twoPuts tightCache reached).2.2 _ _ _ done⟩

/-- The second upload renames its temporary file after it was listed. `Lstat` does not find it,
the cleanup returns the error, and the old blob stays although the cache may hold nothing.
-/
theorem rename_stops_cleanup
    : ∃ s, (machine twoPuts tightCache).Reachable
          (fun s label => label.calm = true ∧ fits s label = true) s
        ∧ s.sweep = .failed notExist
        ∧ s.store.fs.find (.cas "00ffaa") = some [1]
        ∧ (s.store.fs.names (.cas "00ffaa")).any (fun inode =>
            Cleanup.old tightCache s.store.fs.clock (s.store.fs.atimes inode)) = true := by
  obtain ⟨s, run, tested⟩ := Machine.exists_run_of_execIf (machine twoPuts tightCache)
    (fun s label => label.calm = true ∧ fits s label = true) (fresh twoPuts)
    (oldBlob ++ [.store (.disk true .ok), .store (.disk true .ok)] ++ walkDown
      ++ [.readDir (.ok [.file (.cas "00ffaa"), .file (.temp true)]),
        .store (.read true (.data [2])), .store (.read true (.error .eof)),
        .store (.disk true .ok), .store (.disk true .ok), .lstat .ok, .lstat .ok])
    (fun s => decide (s.sweep = .failed notExist
      ∧ s.store.fs.find (.cas "00ffaa") = some [1]
      ∧ (s.store.fs.names (.cas "00ffaa")).any (fun inode =>
          Cleanup.old tightCache s.store.fs.clock (s.store.fs.atimes inode)) = true))
    (by decide +kernel)
  exact ⟨s, ⟨fresh twoPuts, _, ⟨rfl, List.mem_singleton_self _, rfl⟩, run⟩,
    of_decide_eq_true tested⟩

end GoREgo.Janitor.Busy
