import GoREgo.Janitor.Removal

/-! `Cleanup` on a file system in which several names may lead to one inode, as the files of the
CAS and the inputs of running actions do. `Remove` makes the file writable before it removes the
name, and that mode stays with the inode: under its other names, and under the same name when
the removal fails.
-/

namespace GoREgo.Janitor

variable {π ε : Type}

/-- What one walk hands to the callback. It comes to every path once. -/
structure Tour (π ε : Type) where
  visits : List (Visit π ε)
  distinct : ((visits.filterMap Visit.info?).map FileInfo.path).Nodup

structure Inode where
  data : Bytes
  mode : Nat
deriving DecidableEq, Repr

/-- The inode of every name, below the root directory and elsewhere. -/
structure Links (π : Type) where
  names : π → Option Nat
  inodes : Nat → Inode

/-- The calls that fail on a name that exists. -/
structure Faults (π : Type) where
  chmod : π → Bool
  remove : π → Bool

/-- The mode that `Remove` gives to a file. -/
def writableMode : Nat := 0o644

def Inode.writable (inode : Inode) : Inode :=
  { inode with mode := writableMode }

namespace Links

variable [DecidableEq π]

def chmod (disk : Links π) (path : π) : Links π :=
  match disk.names path with
  | none => disk
  | some inode =>
      { disk with inodes := Function.update disk.inodes inode (disk.inodes inode).writable }

/-- `os.Remove` that works. -/
def unlink (disk : Links π) (path : π) : Links π :=
  { disk with names := Function.update disk.names path none }

/-- `stdFileSystem.Remove`. The error of `os.Chmod` is dropped. -/
def remove (faults : Faults π) (path : π) (disk : Links π) : Links π × Bool :=
  let changed := if faults.chmod path then disk else disk.chmod path
  match changed.names path with
  | none => (changed, false)
  | some _ => if faults.remove path then (changed, false) else (changed.unlink path, true)

def removable (disk : Links π) (faults : Faults π) (path : π) : Bool :=
  (disk.names path).isSome && !faults.remove path

variable {disk disk' : Links π} {faults : Faults π} {path other : π} {worked : Bool} {inode : Nat}

omit [DecidableEq π] in
@[simp] theorem chmod_names (disk : Links π) (path : π) : (disk.chmod path).names = disk.names := by
  unfold chmod
  split <;> rfl

/-- What `Remove` does: the mode of the inode changes unless `os.Chmod` fails, and the name goes
if the removal works.
-/
structure Removed (faults : Faults π) (path : π) (disk disk' : Links π) (worked : Bool)
    : Prop where
  worked_eq : worked = disk.removable faults path
  others : ∀ other, other ≠ path → disk'.names other = disk.names other
  name : disk'.names path = if worked then none else disk.names path
  changed : ∀ inode, faults.chmod path = false → disk.names path = some inode →
    disk'.inodes inode = (disk.inodes inode).writable
  unchanged : ∀ inode, faults.chmod path = true ∨ disk.names path ≠ some inode →
    disk'.inodes inode = disk.inodes inode

omit [DecidableEq π] in
theorem inodes_ite_chmod (faults : Faults π) (path : π) (disk : Links π)
    : (∀ inode, faults.chmod path = false → disk.names path = some inode →
        (if faults.chmod path then disk else disk.chmod path).inodes inode
          = (disk.inodes inode).writable)
      ∧ ∀ inode, faults.chmod path = true ∨ disk.names path ≠ some inode →
        (if faults.chmod path then disk else disk.chmod path).inodes inode = disk.inodes inode := by
  cases failing : faults.chmod path with
  | true => exact ⟨nofun, fun _ _ => rfl⟩
  | false =>
      simp only [Bool.false_eq_true, if_false, false_or]
      unfold chmod
      cases found : disk.names path with
      | none => exact ⟨nofun, fun _ _ => rfl⟩
      | some held =>
          refine ⟨fun inode _ same => ?_, fun inode differs => ?_⟩
          · rw [Option.some.inj same]
            exact Function.update_self ..
          · exact Function.update_of_ne (fun same => differs (congrArg some same.symm)) _ _

theorem removed_of_remove (ran : remove faults path disk = (disk', worked))
    : Removed faults path disk disk' worked := by
  obtain ⟨changed, unchanged⟩ := inodes_ite_chmod faults path disk
  have names : (if faults.chmod path then disk else disk.chmod path).names = disk.names := by
    split
    · rfl
    · exact chmod_names disk path
  unfold remove at ran
  dsimp only at ran
  rw [names] at ran
  cases found : disk.names path with
  | none =>
      rw [found] at ran
      obtain ⟨rfl, rfl⟩ := Prod.mk.inj ran
      exact ⟨by simp [removable, found], fun other _ => congrFun names other,
        congrFun names path, changed, unchanged⟩
  | some held =>
      rw [found] at ran
      cases failing : faults.remove path with
      | true =>
          simp only [failing, if_true] at ran
          obtain ⟨rfl, rfl⟩ := Prod.mk.inj ran
          exact ⟨by simp [removable, failing], fun other _ => congrFun names other,
            congrFun names path, changed, unchanged⟩
      | false =>
          simp only [failing, Bool.false_eq_true, if_false] at ran
          obtain ⟨rfl, rfl⟩ := Prod.mk.inj ran
          refine ⟨by simp [removable, found, failing], fun other differs => ?_, ?_, changed,
            unchanged⟩
          · exact (Function.update_of_ne differs _ _).trans (congrFun names other)
          · exact Function.update_self ..

theorem removed_remove (faults : Faults π) (path : π) (disk : Links π)
    : Removed faults path disk (remove faults path disk).1 (remove faults path disk).2 :=
  removed_of_remove rfl

theorem Removed.names_of_some (removed : Removed faults path disk disk' worked)
    (found : disk'.names other = some inode)
    : disk.names other = some inode := by
  by_cases same : other = path
  · subst same
    rw [removed.name] at found
    cases worked with
    | true => cases found
    | false => exact found
  · rw [← removed.others other same]
    exact found

theorem Removed.name_kept (removed : Removed faults path disk disk' worked)
    (kept : other ≠ path ∨ worked = false)
    : disk'.names other = disk.names other := by
  by_cases same : other = path
  · subst same
    rw [removed.name, kept.resolve_left (not_not_intro rfl)]
    rfl
  · exact removed.others other same

variable {calls : List (Call π)}

def Touched (faults : Faults π) (disk : Links π) (calls : List (Call π)) (inode : Nat) : Prop :=
  ∃ call ∈ calls, faults.chmod call.path = false ∧ disk.names call.path = some inode

theorem Removed.touched_iff {call : Call π}
    (removed : Removed faults call.path disk disk' worked)
    : Touched faults disk (call :: calls) inode
      ↔ (faults.chmod call.path = false ∧ disk.names call.path = some inode)
        ∨ Touched faults disk' calls inode := by
  constructor
  · rintro ⟨found, member, works, named⟩
    rcases List.mem_cons.mp member with rfl | later
    · exact Or.inl ⟨works, named⟩
    by_cases same : found.path = call.path
    · rw [same] at works named
      exact Or.inl ⟨works, named⟩
    · exact Or.inr ⟨found, later, works, (removed.others _ same).trans named⟩
  · rintro (here | ⟨found, later, works, named⟩)
    · exact ⟨call, List.mem_cons_self, here⟩
    · exact ⟨found, List.mem_cons_of_mem _ later, works, removed.names_of_some named⟩

theorem names_of_trace (trace : Trace (remove faults) disk calls disk')
    (left : .removed path ∉ calls)
    : disk'.names path = disk.names path := by
  induction trace with
  | nil => rfl
  | cons call ran _ ih =>
      rw [List.mem_cons, not_or] at left
      have kept : path ≠ call.path ∨ call.worked = false := by
        cases call with
        | removed gone => exact Or.inl (fun same => left.1 (congrArg Call.removed same))
        | refused stays => exact Or.inr rfl
      exact (ih left.2).trans ((removed_of_remove ran).name_kept kept)

/-- An inode is made writable when a call comes to one of its names, and is left as it was
otherwise. By induction on the calls.
-/
theorem inodes_of_trace (trace : Trace (remove faults) disk calls disk') (inode : Nat)
    : (Touched faults disk calls inode → disk'.inodes inode = (disk.inodes inode).writable)
      ∧ (¬ Touched faults disk calls inode → disk'.inodes inode = disk.inodes inode) := by
  induction trace with
  | nil => exact ⟨fun ⟨_, member, _⟩ => absurd member List.not_mem_nil, fun _ => rfl⟩
  | @cons call disk middle disk' calls ran _ ih =>
      have removed := removed_of_remove ran
      rw [removed.touched_iff]
      by_cases here : faults.chmod call.path = false ∧ disk.names call.path = some inode
      · refine ⟨fun _ => ?_, fun untouched => absurd (Or.inl here) untouched⟩
        have first := removed.changed inode here.1 here.2
        by_cases again : Touched faults middle calls inode
        · rw [ih.1 again, first]
          rfl
        · rw [ih.2 again, first]
      · have first : middle.inodes inode = disk.inodes inode := by
          refine removed.unchanged inode ?_
          cases fails : faults.chmod call.path with
          | true => exact Or.inl rfl
          | false => exact Or.inr (fun named => here ⟨fails, named⟩)
        rw [← first]
        exact ⟨fun touched => ih.1 (touched.resolve_left here),
          fun untouched => ih.2 (fun later => untouched (Or.inr later))⟩

/-- Every path that was not removed still leads to the same inode, with the same content and the
same mode.
-/
structure Framed (before after : Links π) (calls : List (Call π)) : Prop where
  names : ∀ path, .removed path ∉ calls → after.names path = before.names path
  inodes : ∀ path inode, .removed path ∉ calls → before.names path = some inode →
    after.inodes inode = before.inodes inode

/-- The calls frame the disk exactly when each inode whose mode they change had that mode, or
loses all its names.
-/
theorem framed_iff (trace : Trace (remove faults) disk calls disk')
    : Framed disk disk' calls
      ↔ ∀ inode, Touched faults disk calls inode →
          (disk.inodes inode).mode = writableMode
          ∨ ∀ other, disk.names other = some inode → .removed other ∈ calls := by
  constructor
  · intro framed inode touched
    by_cases gone : ∀ other, disk.names other = some inode → .removed other ∈ calls
    · exact Or.inr gone
    · obtain ⟨other, stays⟩ := not_forall.mp gone
      obtain ⟨named, left⟩ := Classical.not_imp.mp stays
      have same := (framed.inodes other inode left named).symm.trans
        ((inodes_of_trace trace inode).1 touched)
      exact Or.inl (congrArg Inode.mode same)
  · intro each
    refine ⟨fun path left => names_of_trace trace left, fun path inode left named => ?_⟩
    by_cases touched : Touched faults disk calls inode
    · rw [(inodes_of_trace trace inode).1 touched]
      rcases each inode touched with writable | gone
      · rw [Inode.writable, ← writable]
      · exact absurd (gone path named) left
    · exact (inodes_of_trace trace inode).2 touched

def Unmoved (start : Links π) (rest : List (FileInfo π)) (disk : Links π) : Prop :=
  (rest.map FileInfo.path).Nodup
    ∧ ∀ file ∈ rest, disk.names file.path = start.names file.path

theorem settled (start : Links π) (faults : Faults π)
    : Settled (remove faults) (start.removable faults) (Unmoved start) where
  outcome file rest disk unmoved := by
    rw [(removed_remove faults file.path disk).worked_eq, removable, removable,
      unmoved.2 file List.mem_cons_self]
  goes file rest disk unmoved := by
    obtain ⟨fresh, distinct⟩ := List.nodup_cons.mp unmoved.1
    refine ⟨distinct, fun other among => ?_⟩
    have differs : other.path ≠ file.path :=
      fun same => fresh (List.mem_map.mpr ⟨other, among, same⟩)
    rw [(removed_remove faults file.path disk).others _ differs]
    exact unmoved.2 other (List.mem_cons_of_mem _ among)
  skips file rest disk unmoved :=
    ⟨(List.nodup_cons.mp unmoved.1).2,
      fun other among => unmoved.2 other (List.mem_cons_of_mem _ among)⟩

def cleanup (config : Config π) (sorting : Sorting π) (now : Nat) (faults : Faults π)
    (tour : Tour π ε) (disk : Links π)
    : Except ε Unit × Links π × List (Call π) :=
  cleanupWith config sorting now (remove faults) tour.visits disk

variable {config : Config π} {sorting : Sorting π} {now : Nat} {tour : Tour π ε}

theorem mem_cleanup_iff (call : Call π)
    : call ∈ (disk.cleanup config sorting now faults tour).2.2
      ↔ TriedBy config now (disk.removable faults) sorting tour.visits call.path
        ∧ call = Call.of (disk.removable faults) call.path := by
  refine mem_cleanupWith_iff (settled disk faults) sorting tour.visits disk ?_ call
  intro files totalSize collected
  refine ⟨?_, fun _ _ => rfl⟩
  have same : files = tour.visits.filterMap Visit.info? := by
    simpa using collect_files collected
  have perm := (sorting.perm files).map FileInfo.path
  rw [perm.nodup_iff, same]
  exact tour.distinct

theorem removed_mem_cleanup_iff (named : disk.names path = some inode)
    : .removed path ∈ (disk.cleanup config sorting now faults tour).2.2
      ↔ TriedBy config now (disk.removable faults) sorting tour.visits path
        ∧ faults.remove path = false := by
  rw [mem_cleanup_iff]
  refine and_congr_right (fun _ => ?_)
  cases fails : faults.remove path with
  | true => simp [Call.of, Call.path, removable, fails]
  | false => simp [Call.of, Call.path, removable, fails, named]

theorem touched_cleanup_iff
    : Touched faults disk (disk.cleanup config sorting now faults tour).2.2 inode
      ↔ ∃ path, TriedBy config now (disk.removable faults) sorting tour.visits path
          ∧ faults.chmod path = false ∧ disk.names path = some inode := by
  constructor
  · rintro ⟨call, member, works, named⟩
    exact ⟨call.path, (mem_cleanup_iff call).mp member |>.1, works, named⟩
  · rintro ⟨path, tried, works, named⟩
    let call := Call.of (disk.removable faults) path
    have same : call.path = path := Call.path_of path
    refine ⟨call, (mem_cleanup_iff call).mpr ?_, ?_⟩
    · rw [same]
      exact ⟨tried, rfl⟩
    · rw [same]
      exact ⟨works, named⟩

/-- A cleanup leaves every path that it does not remove as it was, exactly when no file that its
loop comes to shares an inode of another mode with a name that stays. The file's own name stays
when its removal fails.
-/
theorem cleanup_frames_iff (config : Config π) (sorting : Sorting π) (now : Nat)
    (faults : Faults π) (tour : Tour π ε) (disk : Links π)
    : Framed disk (disk.cleanup config sorting now faults tour).2.1
        (disk.cleanup config sorting now faults tour).2.2
      ↔ ∀ path inode,
          TriedBy config now (disk.removable faults) sorting tour.visits path →
          disk.names path = some inode →
          faults.chmod path = true
          ∨ (disk.inodes inode).mode = writableMode
          ∨ ∀ other, disk.names other = some inode →
              TriedBy config now (disk.removable faults) sorting tour.visits other
              ∧ faults.remove other = false := by
  have trace : Trace (remove faults) disk (disk.cleanup config sorting now faults tour).2.2
      (disk.cleanup config sorting now faults tour).2.1 :=
    cleanupWith_trace sorting tour.visits disk
  rw [framed_iff trace]
  constructor
  · intro each path inode tried named
    cases fails : faults.chmod path with
    | true => exact Or.inl rfl
    | false =>
        have touched := touched_cleanup_iff.mpr ⟨path, tried, fails, named⟩
        refine Or.inr ((each inode touched).imp_right (fun gone other shared => ?_))
        exact (removed_mem_cleanup_iff shared).mp (gone other shared)
  · intro each inode touched
    obtain ⟨path, tried, works, named⟩ := touched_cleanup_iff.mp touched
    have fate := (each path inode tried named).resolve_left (by simp [works])
    refine fate.imp_right (fun gone other shared => ?_)
    exact (removed_mem_cleanup_iff shared).mpr (gone other shared)

/-- A blob of the CAS with a hard link in the inputs of an action. Both names are read-only and
executable, as `stageFile` leaves a tool.
-/
def linkedInput : Links String where
  names path := if path = "cas/ab/abcd" ∨ path = "job/inputs/tool" then some 7 else none
  inodes _ := ⟨[1], 0o555⟩

def blobTour : Tour String String where
  visits := [.directory "cas", .directory "cas/ab", .file ⟨"cas/ab/abcd", 1, 10⟩]
  distinct := by decide

def noFaults : Faults String := ⟨fun _ => false, fun _ => false⟩

/-- The blob is removed from the cache, and the input of the action becomes writable and is no
longer executable.
-/
theorem linkedInput_writable
    : linkedInput.names "job/inputs/tool" = some 7
      ∧ (linkedInput.inodes 7).mode = 0o555
      ∧ (linkedInput.cleanup ⟨0, 30, fun _ => true⟩ insertionSorting 1000 noFaults blobTour).2.2
        = [.removed "cas/ab/abcd"]
      ∧ ((linkedInput.cleanup ⟨0, 30, fun _ => true⟩ insertionSorting 1000 noFaults
          blobTour).2.1.inodes 7).mode = 0o644
      ∧ ¬ Framed linkedInput
          (linkedInput.cleanup ⟨0, 30, fun _ => true⟩ insertionSorting 1000 noFaults blobTour).2.1
          (linkedInput.cleanup ⟨0, 30, fun _ => true⟩ insertionSorting 1000 noFaults
            blobTour).2.2 := by
  refine ⟨by decide, rfl, by decide, by decide, fun framed => ?_⟩
  have same := framed.inodes "job/inputs/tool" 7 (by decide) (by decide)
  exact absurd (congrArg Inode.mode same) (by decide)

/-- A blob that cannot be removed is left writable too. -/
example
    : ((linkedInput.cleanup ⟨0, 30, fun _ => true⟩ insertionSorting 1000
        ⟨fun _ => false, fun _ => true⟩ blobTour).2.1.inodes 7).mode
      = writableMode := by
  decide

end Links

end GoREgo.Janitor
