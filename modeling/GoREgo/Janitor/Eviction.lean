import GoREgo.Janitor.Cleanup

/-! One `Cleanup` from its walk to its end, on a disk that nobody else changes: which files it
removes, given the order of the walk, the order that the sort leaves files of one access time
in, and which calls of `Remove` fail.
-/

namespace GoREgo.Janitor

variable {π σ ε : Type}

inductive Visit (π ε : Type)
  | failed (err : ε)
  | directory (path : π)
  | file (info : FileInfo π)

namespace Visit

def info? : Visit π ε → Option (FileInfo π)
  | .file info => some info
  | _ => none

end Visit

/-- A call of `Remove`, which removed the file or returned an error. -/
inductive Call (π : Type)
  | removed (path : π)
  | refused (path : π)
deriving DecidableEq, Repr

structure CacheDir (π : Type) where
  files : List (FileInfo π)
  distinct : (files.map FileInfo.path).Nodup

/-- What `sort.Slice` leaves: the same files by access time. It is not stable, so files of
one access time may come in any order.
-/
structure Sorting (π : Type) where
  sort : List (FileInfo π) → List (FileInfo π)
  perm : ∀ files, (sort files).Perm files
  ordered : ∀ files, (sort files).Pairwise (fun older newer => older.atime ≤ newer.atime)

/-- The callback of `Walk`, over everything that is reported. -/
def collect : List (Visit π ε) → List (FileInfo π) → Int → Except ε (List (FileInfo π) × Int)
  | [], files, totalSize => .ok (files, totalSize)
  | .failed err :: _, _, _ => .error err
  | .directory _ :: rest, files, totalSize => collect rest files totalSize
  | .file info :: rest, files, totalSize =>
      collect rest (files ++ [info]) (addSize totalSize info.size)

/-- The loop of `Cleanup` over the sorted files, with the calls of `Remove` that it makes. -/
def removeFiles (config : Config π) (now : Nat) (remove : π → σ → σ × Bool)
    : List (FileInfo π) → Int → σ → σ × List (Call π)
  | [], _, s => (s, [])
  | file :: rest, totalSize, s =>
      if totalSize ≤ config.maxSize then
        (s, [])
      else if !Cleanup.old config now file.atime then
        removeFiles config now remove rest totalSize s
      else
        match remove file.path s with
        | (s', false) =>
            let later := removeFiles config now remove rest totalSize s'
            (later.1, .refused file.path :: later.2)
        | (s', true) =>
            let later := removeFiles config now remove rest (addSize totalSize (-file.size)) s'
            (later.1, .removed file.path :: later.2)

/-- `Janitor.Cleanup`, where the walk reports `walk` and `remove` is what a `Remove` does. -/
def cleanupWith (config : Config π) (sorting : Sorting π) (now : Nat)
    (remove : π → σ → σ × Bool) (walk : List (Visit π ε)) (s : σ)
    : Except ε Unit × σ × List (Call π) :=
  match collect walk [] 0 with
  | .error err => (.error err, s, [])
  | .ok (files, totalSize) =>
      if totalSize ≤ config.maxSize then
        (.ok (), s, [])
      else
        (.ok (), removeFiles config now remove (sorting.sort files) totalSize s)

variable [DecidableEq π]

namespace CacheDir

def remove (disk : CacheDir π) (path : π) : CacheDir π where
  files := disk.files.filter (fun file => file.path != path)
  distinct := disk.distinct.sublist (List.filter_sublist.map _)

/-- `Remove` on a disk of which only the names are known. -/
def tryRemove (fails : π → Bool) (path : π) (disk : CacheDir π) : CacheDir π × Bool :=
  if fails path then (disk, false) else (disk.remove path, true)

end CacheDir

def cleanup (config : Config π) (sorting : Sorting π) (now : Nat) (fails : π → Bool)
    (walk : List (Visit π ε)) (disk : CacheDir π)
    : Except ε Unit × CacheDir π × List (Call π) :=
  cleanupWith config sorting now (CacheDir.tryRemove fails) walk disk

def total (files : List (FileInfo π)) : Int := ((files.map FileInfo.size).sum : Nat)

omit [DecidableEq π] in
@[simp] theorem total_cons (file : FileInfo π) (files : List (FileInfo π))
    : total (file :: files) = file.size + total files := by
  simp [total]

omit [DecidableEq π] in
theorem total_nonneg (files : List (FileInfo π)) : 0 ≤ total files :=
  Int.natCast_nonneg _

variable {files : List (FileInfo π)} {file : FileInfo π}

omit [DecidableEq π] in
theorem total_perm {others : List (FileInfo π)} (same : files.Perm others)
    : total files = total others :=
  congrArg Int.ofNat (same.map FileInfo.size).sum_nat

theorem addSize_eq {totalSize size : Int} (low : 0 ≤ totalSize + size)
    (high : totalSize + size < 2 ^ 63)
    : addSize totalSize size = totalSize + size := by
  refine Int.bmod_eq_of_le ?_ ?_ <;> omega

theorem total_without (distinct : (files.map FileInfo.path).Nodup) (member : file ∈ files)
    : total (files.filter (fun other => other.path != file.path)) = total files - file.size := by
  induction files with
  | nil => cases member
  | cons head rest ih =>
      obtain ⟨fresh, distinct⟩ := List.nodup_cons.mp distinct
      rcases List.mem_cons.mp member with rfl | later
      · have others : rest.filter (fun other => other.path != file.path) = rest := by
          refine List.filter_eq_self.mpr (fun other among => bne_iff_ne.mpr ?_)
          intro same
          exact fresh (List.mem_map.mpr ⟨other, among, same⟩)
        rw [List.filter_cons_of_neg (by simp), others, total_cons]
        omega
      · have differs : head.path ≠ file.path := by
          intro same
          exact fresh (List.mem_map.mpr ⟨file, later, same.symm⟩)
        rw [List.filter_cons_of_pos (by simpa using differs), total_cons, total_cons,
          ih distinct later]
        omega

omit [DecidableEq π] in
/-- A walk without errors is collected whole, with the size of its files. -/
theorem collect_eq {walk : List (Visit π ε)} {totalSize : Int}
    (unfailing : ∀ err, .failed err ∉ walk) (low : 0 ≤ totalSize)
    (fits : totalSize + total (walk.filterMap Visit.info?) < 2 ^ 63)
    : collect walk files totalSize
      = .ok (files ++ walk.filterMap Visit.info?,
          totalSize + total (walk.filterMap Visit.info?)) := by
  induction walk generalizing files totalSize with
  | nil => simp [collect, total]
  | cons visit rest ih =>
      have unfailing' : ∀ err, .failed err ∉ rest :=
        fun err member => unfailing err (List.mem_cons_of_mem _ member)
      cases visit with
      | failed err => exact absurd List.mem_cons_self (unfailing err)
      | directory path => exact ih unfailing' low fits
      | file info =>
          have kept : (Visit.file info :: rest).filterMap Visit.info?
              = info :: rest.filterMap Visit.info? := rfl
          rw [kept, total_cons] at fits
          have later := total_nonneg (rest.filterMap Visit.info?)
          have sum : addSize totalSize info.size = totalSize + info.size := by
            refine addSize_eq ?_ ?_ <;> omega
          rw [collect, sum, ih unfailing' (by omega) (by omega), kept, total_cons,
            List.append_assoc, Int.add_assoc]
          rfl

def present (files : List (FileInfo π)) (calls : List (Call π)) : List (FileInfo π) :=
  files.filter (fun file => .removed file.path ∉ calls)

@[simp] theorem mem_present {calls : List (Call π)}
    : file ∈ present files calls ↔ file ∈ files ∧ .removed file.path ∉ calls := by
  simp [present]

theorem present_refused (files : List (FileInfo π)) (path : π) (calls : List (Call π))
    : present files (.refused path :: calls) = present files calls := by
  simp [present]

theorem present_removed (files : List (FileInfo π)) (path : π) (calls : List (Call π))
    : present files (.removed path :: calls)
      = present (files.filter (fun file => file.path != path)) calls := by
  simp only [present, List.filter_filter]
  refine List.filter_congr (fun file _ => ?_)
  by_cases same : file.path = path <;> simp [same]

/-- What the turns over `rest` have done: files were removed only when they were old, only while
the files present were too large, and none was passed over for a newer one.
-/
structure Turns (config : Config π) (now : Nat) (rest before after : List (FileInfo π))
    (calls : List (Call π))
    : Prop where
  traced : after = present before calls
  aged : ∀ path, .removed path ∈ calls →
    ∃ file ∈ rest, file.path = path ∧ Cleanup.old config now file.atime = true
  enough : total after ≤ config.maxSize
    ∨ ∀ file ∈ rest, .removed file.path ∈ calls ∨ .refused file.path ∈ calls
        ∨ Cleanup.old config now file.atime = false
  oldest : ∀ gone ∈ rest, .removed gone.path ∈ calls →
    ∀ file ∈ rest, file.atime < gone.atime →
      .removed file.path ∈ calls ∨ .refused file.path ∈ calls
  needed : ∀ earlier path later, calls = earlier ++ .removed path :: later →
    config.maxSize < total (present before earlier)

namespace Turns

variable {config : Config π} {now : Nat} {file : FileInfo π}
variable {rest before after : List (FileInfo π)} {calls : List (Call π)}

theorem stop (small : total before ≤ config.maxSize ∨ rest = [])
    : Turns config now rest before before [] where
  traced := by simp [present]
  aged := nofun
  enough := by
    rcases small with small | rfl
    · exact .inl small
    · exact .inr nofun
  oldest := nofun
  needed := by simp

/-- A young file is passed over, and all that follow are as young. -/
theorem skip (young : Cleanup.old config now file.atime = false)
    (ordered : ∀ other ∈ rest, file.atime ≤ other.atime)
    (turns : Turns config now rest before after calls)
    : Turns config now (file :: rest) before after calls where
  traced := turns.traced
  aged path removed := by
    obtain ⟨other, among, facts⟩ := turns.aged path removed
    exact ⟨other, List.mem_cons_of_mem _ among, facts⟩
  enough := by
    refine turns.enough.imp_right (fun each other among => ?_)
    rcases List.mem_cons.mp among with rfl | among
    · exact .inr (.inr young)
    · exact each other among
  oldest := by
    -- what was removed was old, so no file after a young one was
    have none : ∀ path, .removed path ∉ calls := by
      intro path removed
      obtain ⟨other, among, _, aged⟩ := turns.aged path removed
      have later := ordered other among
      simp only [Cleanup.old, Bool.not_eq_true', Bool.not_eq_false', decide_eq_true_eq,
        decide_eq_false_iff_not] at young aged
      omega
    exact fun gone _ removed => absurd removed (none _)
  needed := turns.needed

theorem refuse (turns : Turns config now rest before after calls)
    (ordered : ∀ other ∈ rest, file.atime ≤ other.atime)
    : Turns config now (file :: rest) before after (.refused file.path :: calls) where
  traced := by rw [present_refused, turns.traced]
  aged path removed := by
    obtain ⟨other, among, facts⟩ := turns.aged path (by simpa using removed)
    exact ⟨other, List.mem_cons_of_mem _ among, facts⟩
  enough := by
    refine turns.enough.imp_right (fun each other among => ?_)
    rcases List.mem_cons.mp among with rfl | among
    · exact .inr (.inl List.mem_cons_self)
    · exact (each other among).imp (List.mem_cons_of_mem _) (Or.imp_left (List.mem_cons_of_mem _))
  oldest := by
    intro gone among removed other found older
    rcases List.mem_cons.mp found with rfl | later
    · exact .inr List.mem_cons_self
    rcases List.mem_cons.mp among with rfl | among
    · have := ordered other later
      omega
    · have earlier := turns.oldest gone among (by simpa using removed) other later older
      exact earlier.imp (List.mem_cons_of_mem _) (List.mem_cons_of_mem _)
  needed := by
    intro earlier path later split
    cases earlier with
    | nil => simp at split
    | cons first earlier =>
        obtain ⟨rfl, same⟩ := List.cons.inj split
        rw [present_refused]
        exact turns.needed earlier path later same

theorem remove (old : Cleanup.old config now file.atime = true)
    (large : config.maxSize < total before)
    (turns : Turns config now rest (before.filter (fun other => other.path != file.path))
      after calls)
    (ordered : ∀ other ∈ rest, file.atime ≤ other.atime)
    (distinct : ∀ other ∈ rest, file.path ≠ other.path)
    : Turns config now (file :: rest) before after (.removed file.path :: calls) where
  traced := by rw [present_removed, turns.traced]
  aged path removed := by
    rcases List.mem_cons.mp removed with same | removed
    · exact ⟨file, List.mem_cons_self, (Call.removed.inj same).symm, old⟩
    · obtain ⟨other, among, facts⟩ := turns.aged path removed
      exact ⟨other, List.mem_cons_of_mem _ among, facts⟩
  enough := by
    refine turns.enough.imp_right (fun each other among => ?_)
    rcases List.mem_cons.mp among with rfl | among
    · exact .inl List.mem_cons_self
    · exact (each other among).imp (List.mem_cons_of_mem _) (Or.imp_left (List.mem_cons_of_mem _))
  oldest := by
    intro gone among removed other found older
    rcases List.mem_cons.mp found with rfl | later
    · exact .inl List.mem_cons_self
    rcases List.mem_cons.mp among with rfl | among
    · have := ordered other later
      omega
    · have removed' : .removed gone.path ∈ calls := by
        rcases List.mem_cons.mp removed with same | removed
        · exact absurd (Call.removed.inj same).symm (distinct gone among)
        · exact removed
      have earlier := turns.oldest gone among removed' other later older
      exact earlier.imp (List.mem_cons_of_mem _) (List.mem_cons_of_mem _)
  needed := by
    intro earlier path later split
    cases earlier with
    | nil => simpa [present] using large
    | cons first earlier =>
        obtain ⟨rfl, same⟩ := List.cons.inj split
        rw [present_removed]
        exact turns.needed earlier path later same

end Turns

/-- The loop over sorted files that are all on the disk, started with the size of the disk: the
running total stays the size of what is present.
-/
theorem removeFiles_turns (config : Config π) (now : Nat) (fails : π → Bool)
    {rest : List (FileInfo π)} {disk : CacheDir π}
    (ordered : rest.Pairwise (fun older newer => older.atime ≤ newer.atime))
    (distinct : (rest.map FileInfo.path).Nodup) (there : rest ⊆ disk.files)
    (fits : total disk.files < 2 ^ 63)
    : Turns config now rest disk.files
        (removeFiles config now (CacheDir.tryRemove fails) rest (total disk.files) disk).1.files
        (removeFiles config now (CacheDir.tryRemove fails) rest (total disk.files) disk).2 := by
  induction rest generalizing disk with
  | nil => exact .stop (.inr rfl)
  | cons file rest ih =>
      obtain ⟨first, ordered⟩ := List.pairwise_cons.mp ordered
      obtain ⟨fresh, distinct⟩ := List.nodup_cons.mp distinct
      have differs : ∀ other ∈ rest, file.path ≠ other.path :=
        fun other among same => fresh (List.mem_map.mpr ⟨other, among, same.symm⟩)
      have member : file ∈ disk.files := there List.mem_cons_self
      have there' : rest ⊆ disk.files := fun other among => there (List.mem_cons_of_mem _ among)
      rw [removeFiles, CacheDir.tryRemove]
      split
      · next small => exact .stop (.inl small)
      · next large =>
        split
        · next young =>
          exact .skip (by simpa using young) first (ih ordered distinct there' fits)
        · next old =>
          cases fails file.path with
          | true => exact .refuse (ih ordered distinct there' fits) first
          | false =>
              have without := total_without disk.distinct member
              have left := total_nonneg (disk.remove file.path).files
              have sum : addSize (total disk.files) (-file.size)
                  = total (disk.remove file.path).files := by
                rw [CacheDir.remove, without] at left ⊢
                refine addSize_eq ?_ ?_ <;> omega
              have there'' : rest ⊆ (disk.remove file.path).files := by
                intro other among
                refine List.mem_filter.mpr ⟨there' among, bne_iff_ne.mpr ?_⟩
                exact (differs other among).symm
              have fits' : total (disk.remove file.path).files < 2 ^ 63 := by
                rw [CacheDir.remove, without]
                omega
              rw [sum]
              exact .remove (by simpa using old) (by omega)
                (ih ordered distinct there'' fits') first differs

/-- What a cleanup may do to a disk: remove only old files, as many as are needed and can be
removed, the least recently used ones first, and each only while the files present are too
large.
-/
structure Evicted (config : Config π) (now : Nat) (before after : CacheDir π) (calls : List (Call π))
    : Prop where
  traced : after.files = present before.files calls
  spared : ∀ file ∈ before.files, (now : Int) - file.atime < config.minAge → file ∈ after.files
  enough : total after.files ≤ config.maxSize
    ∨ ∀ file ∈ after.files,
        (now : Int) - file.atime < config.minAge ∨ .refused file.path ∈ calls
  oldest : ∀ gone ∈ before.files, gone ∉ after.files →
    ∀ file ∈ after.files, file.atime < gone.atime → .refused file.path ∈ calls
  needed : ∀ earlier path later, calls = earlier ++ .removed path :: later →
    config.maxSize < total (present before.files earlier)
  within : total before.files ≤ config.maxSize → after.files = before.files

/-- A walk that reports the files of a disk, in any order and without an error. -/
structure Walks (walk : List (Visit π ε)) (disk : CacheDir π) : Prop where
  unfailing : ∀ err, .failed err ∉ walk
  reports : (walk.filterMap Visit.info?).Perm disk.files

omit [DecidableEq π] in
theorem CacheDir.eq_of_path {disk : CacheDir π} {other : FileInfo π} (member : file ∈ disk.files)
    (among : other ∈ disk.files) (same : file.path = other.path)
    : file = other :=
  List.inj_on_of_nodup_map disk.distinct member among same

/-- The turns over all files of a disk, in the terms of the disk. -/
theorem Turns.evicted {config : Config π} {now : Nat} {rest : List (FileInfo π)}
    {before after : CacheDir π} {calls : List (Call π)} (all : rest.Perm before.files)
    (large : config.maxSize < total before.files)
    (turns : Turns config now rest before.files after.files calls)
    : Evicted config now before after calls := by
  have kept : ∀ file, file ∈ after.files → file ∈ rest ∧ .removed file.path ∉ calls := by
    intro file member
    rw [turns.traced, mem_present] at member
    exact ⟨all.mem_iff.mpr member.1, member.2⟩
  refine ⟨turns.traced, ?spared, ?enough, ?oldest, turns.needed, fun small => by omega⟩
  case spared =>
    intro file member young
    rw [turns.traced, mem_present]
    refine ⟨member, fun removed => ?_⟩
    obtain ⟨other, among, same, old⟩ := turns.aged file.path removed
    obtain rfl := before.eq_of_path (all.mem_iff.mp among) member same
    simp [Cleanup.old, young] at old
  case enough =>
    refine turns.enough.imp_right (fun each file member => ?_)
    obtain ⟨among, left⟩ := kept file member
    rcases each file among with removed | refused | young
    · exact absurd removed left
    · exact .inr refused
    · exact .inl (by simpa [Cleanup.old] using young)
  case oldest =>
    intro gone member absent file found older
    obtain ⟨among, left⟩ := kept file found
    have removed : .removed gone.path ∈ calls := by
      rw [turns.traced, mem_present] at absent
      exact Decidable.not_not.mp (fun stays => absent ⟨member, stays⟩)
    exact (turns.oldest gone (all.mem_iff.mpr member) removed file among older).resolve_left left

/-- `Cleanup` returns without an error and evicts the least recently used files, only as needed
and only old ones, when the walk has no error and an `int64` holds the size of the files.
-/
theorem cleanup_evicts (config : Config π) (sorting : Sorting π) (now : Nat) (fails : π → Bool)
    {walk : List (Visit π ε)} {disk : CacheDir π} (walks : Walks walk disk)
    (fits : total disk.files < 2 ^ 63)
    : ∃ disk' calls, cleanup config sorting now fails walk disk = (.ok (), disk', calls)
        ∧ Evicted config now disk disk' calls := by
  have size := total_perm walks.reports
  have collected : collect walk [] 0
      = .ok (walk.filterMap Visit.info?, total disk.files) := by
    rw [collect_eq walks.unfailing (Int.le_refl 0) (by omega), size]
    simp
  by_cases small : total disk.files ≤ config.maxSize
  · refine ⟨disk, [], by rw [cleanup, cleanupWith, collected]; exact if_pos small, ?_⟩
    exact ⟨by simp [present], fun file member _ => member, .inl small,
      fun gone member absent => absurd member absent, by simp, fun _ => rfl⟩
  · have all := (sorting.perm (walk.filterMap Visit.info?)).trans walks.reports
    have distinct := (all.map FileInfo.path).nodup_iff.mpr disk.distinct
    refine ⟨_, _, by rw [cleanup, cleanupWith, collected]; exact if_neg small, ?_⟩
    exact (removeFiles_turns config now fails (sorting.ordered _) distinct all.subset fits).evicted all
      (by omega)

def insertionSorting : Sorting π where
  sort := List.insertionSort (fun older newer => older.atime ≤ newer.atime)
  perm := List.perm_insertionSort _
  ordered := List.pairwise_insertionSort _

/-- Three files, the second of which cannot be removed and the third of which is young. -/
def threeFiles : CacheDir Nat where
  files := [⟨1, 100, 10⟩, ⟨2, 200, 20⟩, ⟨3, 300, 990⟩]
  distinct := by decide

def threeVisits : List (Visit Nat String) :=
  [.directory 0, .file ⟨3, 300, 990⟩, .file ⟨1, 100, 10⟩, .file ⟨2, 200, 20⟩]

theorem threeFiles_evicted
    : ∃ disk' calls,
        cleanup ⟨400, 30, fun _ => true⟩ insertionSorting 1000 (fun path => path == 2)
            threeVisits threeFiles
          = (.ok (), disk', calls)
        ∧ Evicted ⟨400, 30, fun _ => true⟩ 1000 threeFiles disk' calls := by
  refine cleanup_evicts _ insertionSorting 1000 _ ⟨?_, ?_⟩ (by decide)
  · simp [threeVisits]
  · exact List.isPerm_iff.mp (by decide)

example
    : (cleanup ⟨400, 30, fun _ => true⟩ insertionSorting 1000 (fun path => path == 2)
        threeVisits threeFiles).2.2
      = [.removed 1, .refused 2] := by
  decide

def sparseFiles : CacheDir Nat where
  files := [⟨1, 2 ^ 62, 10⟩, ⟨2, 2 ^ 62, 20⟩]
  distinct := by decide

def sparseVisits : List (Visit Nat String) :=
  [.file ⟨1, 2 ^ 62, 10⟩, .file ⟨2, 2 ^ 62, 20⟩]

/-- The total of the two files is negative as an `int64`, so that old files which could be
removed stay and exceed the limit.
-/
theorem sparseFiles_stay
    : Walks sparseVisits sparseFiles
      ∧ ¬ ∃ disk' calls,
          cleanup ⟨400, 30, fun _ => true⟩ insertionSorting 1000 (fun _ => false)
              sparseVisits sparseFiles
            = (.ok (), disk', calls)
          ∧ Evicted ⟨400, 30, fun _ => true⟩ 1000 sparseFiles disk' calls := by
  refine ⟨⟨by simp [sparseVisits], .refl _⟩, ?_⟩
  rintro ⟨disk', calls, ran, evicted⟩
  have kept : cleanup ⟨400, 30, fun _ => true⟩ insertionSorting 1000 (fun _ => false)
      sparseVisits sparseFiles = (.ok (), sparseFiles, []) := rfl
  obtain ⟨-, rfl, rfl⟩ : _ ∧ sparseFiles = disk' ∧ [] = calls := by
    simpa only [kept, Prod.mk.injEq] using ran
  rcases evicted.enough with small | each
  · exact absurd small (by decide)
  · have old := each ⟨1, 2 ^ 62, 10⟩ List.mem_cons_self
    simp at old

end GoREgo.Janitor
