import GoREgo.Janitor.Eviction

/-! The loop of `Cleanup` over any file system. What a `Remove` does to the file system, and
whether it works, is a parameter; which files the loop tries to remove depends on nothing but
the sizes and access times that the walk saw and on which removals work.
-/

namespace GoREgo.Janitor

open Lib LocalStore

variable {π σ ε : Type}

def Call.path : Call π → π
  | .removed path => path
  | .refused path => path

def Call.worked : Call π → Bool
  | .removed _ => true
  | .refused _ => false

section Steps

variable [DecidableEq π]

/-- `os.Remove` of a path on a file system. -/
def tryRemove (fails : π → Bool) (path : π) (fs : FileSystem π UInt8)
    : FileSystem π UInt8 × Bool :=
  match fs.remove path, fails path with
  | some fs', false => (fs', true)
  | _, _ => (fs, false)

def Cleanup.steps (config : Config π) (s : FileSystem π UInt8 × Cleanup π)
    (actions : List (Action π))
    : Option (FileSystem π UInt8 × Cleanup π) :=
  actions.foldlM (fun s action => step config s.1 s.2 action) s

variable {config : Config π} {now : Nat} {file : FileInfo π} {rest : List (FileInfo π)}
  {totalSize totalSize' : Int} {fs fs' : FileSystem π UInt8} {fate : Fate}
  {done : FileSystem π UInt8 × Cleanup π}

theorem Cleanup.steps_pass {outcome : Outcome} (large : ¬ totalSize ≤ config.maxSize)
    (passed : pass config fs now file totalSize outcome = some (fs', fate, totalSize'))
    (later : ∃ actions, steps config (fs', .evicting now rest totalSize') actions = some done)
    : ∃ actions, steps config (fs, .evicting now (file :: rest) totalSize) actions
        = some done := by
  obtain ⟨actions, ran⟩ := later
  refine ⟨.evict outcome :: actions, ?_⟩
  rw [← ran, steps, List.foldlM_cons]
  simp [step, large, passed, steps]

/-- The loop of a cleanup, step by step and left to itself, is the loop over its list. -/
theorem evicting_eq_removeFiles (config : Config π) (now : Nat) (fails : π → Bool)
    (files : List (FileInfo π)) (totalSize : Int) (fs : FileSystem π UInt8)
    : ∃ actions, Cleanup.steps config (fs, .evicting now files totalSize) actions
        = some ((removeFiles config now (tryRemove fails) files totalSize fs).1, .idle) := by
  induction files generalizing totalSize fs with
  | nil => exact ⟨[.evict .ok], rfl⟩
  | cons file rest ih =>
      rw [removeFiles]
      split
      next within => exact ⟨[.evict .ok], by simp [Cleanup.steps, Cleanup.step, within]⟩
      next large =>
        split
        next young =>
          have passed : Cleanup.pass config fs now file totalSize .ok
              = some (fs, .young, totalSize) := if_pos young
          exact Cleanup.steps_pass large passed (ih _ _)
        next old =>
          have refused : Cleanup.pass config fs now file totalSize (.fail (.plain ""))
              = some (fs, .refused, totalSize) := if_neg old
          unfold tryRemove
          cases removed : fs.remove file.path with
          | none => exact Cleanup.steps_pass large refused (ih _ _)
          | some fs' =>
              cases fails file.path with
              | true => exact Cleanup.steps_pass large refused (ih _ _)
              | false =>
                  have passed : Cleanup.pass config fs now file totalSize .ok
                      = some (fs', .removed, addSize totalSize (-file.size)) := by
                    simp only [Cleanup.pass, if_neg old, removed, Option.map_some]
                  exact Cleanup.steps_pass large passed (ih _ _)

end Steps

inductive Trace (remove : π → σ → σ × Bool) : σ → List (Call π) → σ → Prop
  | nil (s : σ) : Trace remove s [] s
  | cons (call : Call π) {s s' s'' calls} (ran : remove call.path s = (s', call.worked))
    (later : Trace remove s' calls s'')
    : Trace remove s (call :: calls) s''

variable {config : Config π} {now : Nat} {remove : π → σ → σ × Bool}

theorem removeFiles_trace (files : List (FileInfo π)) (totalSize : Int) (s : σ)
    : Trace remove s (removeFiles config now remove files totalSize s).2
        (removeFiles config now remove files totalSize s).1 := by
  induction files generalizing totalSize s with
  | nil => exact .nil s
  | cons file rest ih =>
      rw [removeFiles]
      split
      · exact .nil s
      · split
        · exact ih totalSize s
        · split
          next s' ran => exact .cons (.refused file.path) ran (ih totalSize s')
          next s' ran => exact .cons (.removed file.path) ran (ih _ s')

theorem cleanupWith_trace (sorting : Sorting π) (walk : List (Visit π ε)) (s : σ)
    : Trace remove s (cleanupWith config sorting now remove walk s).2.2
        (cleanupWith config sorting now remove walk s).2.1 := by
  unfold cleanupWith
  split
  · exact .nil s
  · split
    · exact .nil s
    · exact removeFiles_trace _ _ s

theorem collect_files {walk : List (Visit π ε)} {files seen : List (FileInfo π)}
    {totalSize size : Int} (collected : collect walk files totalSize = .ok (seen, size))
    : seen = files ++ walk.filterMap Visit.info? := by
  induction walk generalizing files totalSize with
  | nil =>
      obtain ⟨rfl, -⟩ := Prod.mk.inj (Except.ok.inj collected)
      exact (List.append_nil files).symm
  | cons visit rest ih =>
      cases visit with
      | failed err => cases collected
      | directory path => exact ih collected
      | file info =>
          rw [ih collected, List.append_assoc]
          rfl

variable (config now) (removable : π → Bool)

def passed (totalSize : Int) (file : FileInfo π) : Int :=
  if Cleanup.old config now file.atime ∧ removable file.path then
    addSize totalSize (-file.size)
  else
    totalSize

/-- The loop tries to remove a path: its file is old enough, and the total exceeds the limit at
this file and at all files before it.
-/
def Tried (files : List (FileInfo π)) (totalSize : Int) (path : π) : Prop :=
  ∃ before file after, files = before ++ file :: after ∧ file.path = path
    ∧ Cleanup.old config now file.atime = true
    ∧ ∀ earlier, earlier <+: before →
        config.maxSize < earlier.foldl (passed config now removable) totalSize

variable {config now removable}

theorem not_tried_nil (totalSize : Int) (path : π)
    : ¬ Tried config now removable [] totalSize path := by
  rintro ⟨before, file, after, split, -⟩
  cases (List.append_eq_nil_iff.mp split.symm).2

theorem tried_cons {file : FileInfo π} {rest : List (FileInfo π)} {totalSize : Int} {path : π}
    : Tried config now removable (file :: rest) totalSize path
      ↔ config.maxSize < totalSize
        ∧ ((Cleanup.old config now file.atime = true ∧ file.path = path)
          ∨ Tried config now removable rest (passed config now removable totalSize file) path) := by
  constructor
  · rintro ⟨before, found, after, split, named, old, above⟩
    refine ⟨above [] List.nil_prefix, ?_⟩
    cases before with
    | nil =>
        obtain ⟨rfl, -⟩ := List.cons.inj split
        exact Or.inl ⟨old, named⟩
    | cons first before =>
        obtain ⟨rfl, tail⟩ := List.cons.inj split
        refine Or.inr ⟨before, found, after, tail, named, old, fun earlier initial => ?_⟩
        exact above (file :: earlier) (List.cons_prefix_cons.mpr ⟨rfl, initial⟩)
  · rintro ⟨large, ⟨old, named⟩ | ⟨before, found, after, rfl, named, old, above⟩⟩
    · refine ⟨[], file, rest, rfl, named, old, fun earlier initial => ?_⟩
      rw [List.prefix_nil.mp initial]
      exact large
    · refine ⟨file :: before, found, after, rfl, named, old, fun earlier initial => ?_⟩
      cases earlier with
      | nil => exact large
      | cons first earlier =>
          obtain ⟨rfl, tail⟩ := List.cons_prefix_cons.mp initial
          exact above earlier tail

def Call.of (removable : π → Bool) (path : π) : Call π :=
  if removable path then .removed path else .refused path

theorem Call.path_of (path : π) : (Call.of removable path).path = path := by
  unfold Call.of
  split <;> rfl

theorem Call.eq_of_iff {call : Call π} {path : π}
    : call = Call.of removable path ↔ path = call.path ∧ call = Call.of removable call.path := by
  constructor
  · rintro rfl
    rw [Call.path_of]
    exact ⟨rfl, rfl⟩
  · rintro ⟨rfl, same⟩
    exact same

theorem removeFiles_old {file : FileInfo π} {rest : List (FileInfo π)} {totalSize : Int} {s : σ}
    (large : config.maxSize < totalSize) (old : Cleanup.old config now file.atime = true)
    (outcome : (remove file.path s).2 = removable file.path)
    : (removeFiles config now remove (file :: rest) totalSize s).2
      = Call.of removable file.path
        :: (removeFiles config now remove rest (passed config now removable totalSize file)
            (remove file.path s).1).2 := by
  rw [removeFiles, if_neg (Int.not_le.mpr large), if_neg (by simp [old])]
  cases ran : remove file.path s with
  | mk s' worked =>
      rw [ran] at outcome
      have outcome : worked = removable file.path := outcome
      cases worked with
      | false => simp [passed, Call.of, ← outcome]
      | true => simp [passed, Call.of, ← outcome, old]

/-- An invariant of the file system and of the files that are left to the loop, which fixes the
outcome of every removal to come.
-/
structure Settled (remove : π → σ → σ × Bool) (removable : π → Bool)
    (fixed : List (FileInfo π) → σ → Prop)
    : Prop where
  outcome : ∀ file rest s, fixed (file :: rest) s → (remove file.path s).2 = removable file.path
  goes : ∀ file rest s, fixed (file :: rest) s → fixed rest (remove file.path s).1
  skips : ∀ file rest s, fixed (file :: rest) s → fixed rest s

variable {fixed : List (FileInfo π) → σ → Prop}

/-- The calls of the loop are the files tried, with the outcome that the removal of each has. By
induction on the files.
-/
theorem mem_removeFiles_iff (settled : Settled remove removable fixed)
    (files : List (FileInfo π)) (totalSize : Int) (s : σ) (start : fixed files s) (call : Call π)
    : call ∈ (removeFiles config now remove files totalSize s).2
      ↔ Tried config now removable files totalSize call.path
        ∧ call = Call.of removable call.path := by
  induction files generalizing totalSize s with
  | nil => exact ⟨(absurd · List.not_mem_nil), fun tried => absurd tried.1 (not_tried_nil _ _)⟩
  | cons file rest ih =>
      rw [tried_cons]
      by_cases small : totalSize ≤ config.maxSize
      · rw [removeFiles, if_pos small]
        exact ⟨(absurd · List.not_mem_nil), fun tried => absurd tried.1.1 (Int.not_lt.mpr small)⟩
      have large := Int.not_le.mp small
      cases old : Cleanup.old config now file.atime with
      | false =>
          have same : passed config now removable totalSize file = totalSize := by
            simp [passed, old]
          have later := ih totalSize s (settled.skips file rest s start)
          rw [removeFiles, if_neg small, if_pos (by simp [old]), later, same]
          simp [large]
      | true =>
          have later := ih (passed config now removable totalSize file) _
            (settled.goes file rest s start)
          rw [removeFiles_old large old (settled.outcome file rest s start), List.mem_cons, later,
            Call.eq_of_iff]
          simp only [large, true_and]
          rw [or_and_right]

variable (config now) (removable : π → Bool) in
/-- `Cleanup` tries to remove a path: its walk ends without an error, and the loop comes to the
path.
-/
def TriedBy (sorting : Sorting π) (walk : List (Visit π ε)) (path : π) : Prop :=
  ∃ files totalSize, collect walk [] 0 = .ok (files, totalSize)
    ∧ Tried config now removable (sorting.sort files) totalSize path

theorem mem_cleanupWith_iff (settled : Settled remove removable fixed)
    (sorting : Sorting π) (walk : List (Visit π ε)) (s : σ)
    (start : ∀ files totalSize, collect walk [] 0 = .ok (files, totalSize) →
      fixed (sorting.sort files) s) (call : Call π)
    : call ∈ (cleanupWith config sorting now remove walk s).2.2
      ↔ TriedBy config now removable sorting walk call.path
        ∧ call = Call.of removable call.path := by
  unfold TriedBy
  cases collected : collect walk [] 0 with
  | error err =>
      simp [cleanupWith, collected]
  | ok seen =>
      obtain ⟨files, totalSize⟩ := seen
      have loop : call ∈ (removeFiles config now remove (sorting.sort files) totalSize s).2
          ↔ Tried config now removable (sorting.sort files) totalSize call.path
            ∧ call = Call.of removable call.path :=
        mem_removeFiles_iff settled _ totalSize s (start files totalSize collected) call
      have only : (∃ files' totalSize', (Except.ok (files, totalSize) : Except ε _)
            = .ok (files', totalSize')
            ∧ Tried config now removable (sorting.sort files') totalSize' call.path)
          ↔ Tried config now removable (sorting.sort files) totalSize call.path := by
        constructor
        · rintro ⟨files', totalSize', same, tried⟩
          obtain ⟨rfl, rfl⟩ := Prod.mk.inj (Except.ok.inj same)
          exact tried
        · exact fun tried => ⟨files, totalSize, rfl, tried⟩
      rw [only, ← loop]
      by_cases small : totalSize ≤ config.maxSize
      · -- the loop would stop at once
        have stops : (removeFiles config now remove (sorting.sort files) totalSize s).2 = [] := by
          cases sorting.sort files with
          | nil => rfl
          | cons file rest => rw [removeFiles, if_pos small]
        simp only [cleanupWith, collected, if_pos small, stops]
      · simp only [cleanupWith, collected, if_neg small]

end GoREgo.Janitor
