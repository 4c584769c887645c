import Mathlib.Algebra.Order.Ring.Int
import Mathlib.Logic.Function.Basic

/-! A filesystem of regular files: names that lead to inodes, and inodes with their contents
and access times. Names are created, linked, renamed and removed; a rename is atomic. Open
files are inodes, so they outlive their names.
-/

namespace GoREgo.Lib

/-- Names, the contents and access time of each inode, the next free inode, and the clock.
Every named inode has been allocated.
-/
structure FileSystem (π α : Type) where
  names : π → Option Nat
  contents : Nat → List α
  atimes : Nat → Nat
  next : Nat
  clock : Nat
  allocated : ∀ name inode, names name = some inode → inode < next

namespace FileSystem

variable {π α : Type} {fs fs' : FileSystem π α} {name : π} {inode : Nat}

def empty : FileSystem π α where
  names _ := none
  contents _ := []
  atimes _ := 0
  next := 0
  clock := 0
  allocated := nofun

def find (fs : FileSystem π α) (name : π) : Option (List α) :=
  (fs.names name).map fs.contents

theorem find_of_names (found : fs.names name = some inode)
    : fs.find name = some (fs.contents inode) := by
  simp only [find, found, Option.map_some]

theorem find_eq_some {data : List α} (found : fs.find name = some data)
    : ∃ inode, fs.names name = some inode ∧ fs.contents inode = data :=
  Option.map_eq_some_iff.mp found

theorem find_congr (names : fs'.names name = fs.names name)
    (contents : ∀ inode, fs.names name = some inode → fs'.contents inode = fs.contents inode)
    : fs'.find name = fs.find name := by
  unfold find
  rw [names]
  cases found : fs.names name with
  | none => rfl
  | some inode => exact congrArg some (contents inode found)

variable [DecidableEq π] (fs : FileSystem π α)

/-- Point a name at an allocated inode, or at none. -/
def setName (name : π) (target : Option Nat) (known : ∀ inode, target = some inode → inode < fs.next)
    : FileSystem π α :=
  { fs with
    names := Function.update fs.names name target
    allocated := by
      intro other inode found
      by_cases same : other = name
      · subst same
        rw [Function.update_self] at found
        exact known inode found
      · rw [Function.update_of_ne same] at found
        exact fs.allocated other inode found }

/-- `O_CREAT|O_EXCL`: a new empty file, accessed now, under a name that is free. -/
def create (name : π) : Option (FileSystem π α) :=
  if (fs.names name).isSome then
    none
  else
    some
      { fs with
        names := Function.update fs.names name (some fs.next)
        contents := Function.update fs.contents fs.next []
        atimes := Function.update fs.atimes fs.next fs.clock
        next := fs.next + 1
        allocated := by
          intro other inode found
          by_cases same : other = name
          · subst same
            rw [Function.update_self] at found
            obtain rfl := Option.some.inj found
            exact Nat.lt_succ_self _
          · rw [Function.update_of_ne same] at found
            exact Nat.lt_succ_of_lt (fs.allocated other inode found) }

/-- A write at the end of an open file. It does not count as an access. -/
def append (inode : Nat) (data : List α) : FileSystem π α :=
  { fs with contents := Function.update fs.contents inode (fs.contents inode ++ data) }

/-- `link`: a second name for a file, under a name that is free. -/
def link (source target : π) : Option (FileSystem π α) :=
  match found : fs.names source, fs.names target with
  | some inode, none =>
      some (fs.setName target (some inode) (fun _ same =>
        Option.some.inj same ▸ fs.allocated source inode found))
  | _, _ => none

/-- `unlink`: a name goes away; the inode stays for those who have it open. -/
def remove (name : π) : Option (FileSystem π α) :=
  if (fs.names name).isSome then some (fs.setName name none nofun) else none

/-- `rename`: the file gets the target name, which leaves the file that had it before. Two
names of one file stay as they are.
-/
def rename (source target : π) : Option (FileSystem π α) :=
  match found : fs.names source with
  | none => none
  | some inode =>
      if fs.names target = some inode then
        some fs
      else
        some ((fs.setName target (some inode) (fun _ same =>
          Option.some.inj same ▸ fs.allocated source inode found)).setName source none nofun)

def touch (inode : Nat) : FileSystem π α :=
  { fs with atimes := Function.update fs.atimes inode fs.clock }

def tick (duration : Nat) : FileSystem π α :=
  { fs with clock := fs.clock + duration }

/-- `O_CREAT|O_TRUNC`: an existing file is emptied, otherwise a new one is made. -/
def createOrTruncate (name : π) : Option (FileSystem π α) :=
  match fs.names name with
  | some inode => some { fs with contents := Function.update fs.contents inode [] }
  | none => fs.create name

def discard (name : π) : FileSystem π α :=
  (fs.remove name).getD fs

variable {fs : FileSystem π α} {source target : π}

theorem create_spec (created : fs.create name = some fs')
    : fs.names name = none
      ∧ fs'.names = Function.update fs.names name (some fs.next)
      ∧ fs'.contents = Function.update fs.contents fs.next []
      ∧ fs'.next = fs.next + 1 := by
  unfold create at created
  split at created
  · cases created
  · next free =>
    cases created
    exact ⟨Option.not_isSome_iff_eq_none.mp free, rfl, rfl, rfl⟩

theorem exists_create (free : fs.names name = none) : ∃ fs', fs.create name = some fs' := by
  unfold create
  rw [if_neg (by simp [free])]
  exact ⟨_, rfl⟩

theorem createOrTruncate_of_free (free : fs.names name = none)
    : fs.createOrTruncate name = fs.create name := by
  simp only [createOrTruncate, free]

theorem link_spec (linked : fs.link source target = some fs')
    : ∃ inode, fs.names source = some inode ∧ fs.names target = none
      ∧ fs'.names = Function.update fs.names target (some inode)
      ∧ fs'.contents = fs.contents ∧ fs'.next = fs.next := by
  unfold link at linked
  split at linked
  · next inode found free =>
    cases linked
    exact ⟨inode, found, free, rfl, rfl, rfl⟩
  · cases linked

/-- A rename moves the source's inode to the target, unless it is there already. -/
theorem rename_spec (renamed : fs.rename source target = some fs')
    : ∃ inode, fs.names source = some inode
      ∧ ((fs.names target = some inode ∧ fs' = fs)
        ∨ (fs'.names =
            Function.update (Function.update fs.names target (some inode)) source none
          ∧ fs'.contents = fs.contents ∧ fs'.next = fs.next)) := by
  unfold rename at renamed
  split at renamed
  · cases renamed
  · next inode found =>
    split at renamed
    · next same =>
      cases renamed
      exact ⟨inode, found, .inl ⟨same, rfl⟩⟩
    · cases renamed
      exact ⟨inode, found, .inr ⟨rfl, rfl, rfl⟩⟩

theorem names_rename (renamed : fs.rename source target = some fs') (distinct : target ≠ source)
    : fs'.names target = fs.names source ∧ fs'.contents = fs.contents := by
  obtain ⟨inode, found, moved⟩ := rename_spec renamed
  rcases moved with ⟨there, rfl⟩ | ⟨names, contents, -⟩
  · exact ⟨there.trans found.symm, rfl⟩
  · refine ⟨?_, contents⟩
    rw [names, Function.update_of_ne distinct, Function.update_self]
    exact found.symm

theorem exists_rename (target : π) (found : fs.names source = some inode)
    : ∃ fs', fs.rename source target = some fs' := by
  unfold rename
  split
  · next absent => exact nomatch absent.symm.trans found
  · split
    · exact ⟨_, rfl⟩
    · exact ⟨_, rfl⟩

variable {other : π}

theorem update_none_of_none {names : π → Option Nat} (absent : names other = none)
    : Function.update names name none other = none := by
  rw [Function.update_apply]
  split
  · rfl
  · exact absent

theorem remove_spec (removed : fs.remove name = some fs')
    : fs'.names = Function.update fs.names name none
      ∧ fs'.contents = fs.contents ∧ fs'.next = fs.next := by
  unfold remove at removed
  split at removed
  · cases removed
    exact ⟨rfl, rfl, rfl⟩
  · cases removed

/-- A removal whose error is ignored leaves no file under the name. -/
theorem discard_spec (fs : FileSystem π α) (name : π)
    : (fs.discard name).names = Function.update fs.names name none
      ∧ (fs.discard name).contents = fs.contents ∧ (fs.discard name).next = fs.next := by
  unfold discard
  cases removed : fs.remove name with
  | some fs' => exact remove_spec removed
  | none =>
      have absent : fs.names name = none := by
        unfold remove at removed
        split at removed
        · cases removed
        · next free => exact Option.not_isSome_iff_eq_none.mp free
      refine ⟨?_, rfl, rfl⟩
      rw [← absent, Function.update_eq_self]
      rfl

theorem create_times (created : fs.create name = some fs')
    : fs'.atimes = Function.update fs.atimes fs.next fs.clock ∧ fs'.clock = fs.clock := by
  unfold create at created
  split at created
  · cases created
  · cases created
    exact ⟨rfl, rfl⟩

theorem rename_times (renamed : fs.rename source target = some fs')
    : fs'.atimes = fs.atimes ∧ fs'.clock = fs.clock := by
  unfold rename at renamed
  split at renamed
  · cases renamed
  · split at renamed <;> cases renamed <;> exact ⟨rfl, rfl⟩

theorem remove_times (removed : fs.remove name = some fs')
    : fs'.atimes = fs.atimes ∧ fs'.clock = fs.clock := by
  unfold remove at removed
  split at removed
  · cases removed
    exact ⟨rfl, rfl⟩
  · cases removed

theorem discard_times (fs : FileSystem π α) (name : π)
    : (fs.discard name).atimes = fs.atimes ∧ (fs.discard name).clock = fs.clock := by
  unfold discard
  cases removed : fs.remove name with
  | some fs' => exact remove_times removed
  | none => exact ⟨rfl, rfl⟩

theorem find_create (created : fs.create name = some fs') (distinct : other ≠ name)
    : fs'.find other = fs.find other := by
  obtain ⟨-, names, contents, -⟩ := create_spec created
  refine find_congr ?_ ?_
  · rw [names, Function.update_of_ne distinct]
  · intro inode found
    rw [contents, Function.update_of_ne (Nat.ne_of_lt (fs.allocated other inode found))]

theorem find_link (linked : fs.link source target = some fs') (distinct : other ≠ target)
    : fs'.find other = fs.find other := by
  obtain ⟨_, -, -, names, contents, -⟩ := link_spec linked
  refine find_congr ?_ (fun inode _ => congrFun contents inode)
  rw [names, Function.update_of_ne distinct]

omit [DecidableEq π] in
theorem find_append {data : List α} (distinct : fs.names name ≠ some inode)
    : (fs.append inode data).find name = fs.find name := by
  refine find_congr rfl (fun other found => Function.update_of_ne ?_ _ _)
  rintro rfl
  exact distinct found

theorem find_remove (removed : fs.remove name = some fs') (distinct : other ≠ name)
    : fs'.find other = fs.find other := by
  obtain ⟨names, contents, -⟩ := remove_spec removed
  refine find_congr ?_ (fun inode _ => congrFun contents inode)
  rw [names, Function.update_of_ne distinct]

theorem find_discard (distinct : other ≠ name)
    : (fs.discard name).find other = fs.find other := by
  obtain ⟨names, contents, -⟩ := discard_spec fs name
  refine find_congr ?_ (fun inode _ => congrFun contents inode)
  rw [names, Function.update_of_ne distinct]

/-- After a rename the target has what the source had, whether or not it moved. -/
theorem find_rename {data : List α} (renamed : fs.rename source target = some fs')
    (found : fs.find source = some data) (distinct : other ≠ source)
    : fs'.find other = if other = target then some data else fs.find other := by
  obtain ⟨inode, named, moved⟩ := rename_spec renamed
  have whole : some (fs.contents inode) = some data := (find_of_names named).symm.trans found
  split
  · next same =>
    subst same
    rcases moved with ⟨there, rfl⟩ | ⟨names, contents, -⟩
    · exact (find_of_names there).trans whole
    · refine (find_of_names ?_).trans (contents ▸ whole)
      rw [names, Function.update_of_ne distinct, Function.update_self]
  · next away =>
    rcases moved with ⟨-, rfl⟩ | ⟨names, contents, -⟩
    · rfl
    · refine find_congr ?_ (fun inode _ => congrFun contents inode)
      rw [names, Function.update_of_ne distinct, Function.update_of_ne away]

end FileSystem

end GoREgo.Lib
