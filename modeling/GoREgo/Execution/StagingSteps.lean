import GoREgo.Execution.Staging

/-! What single steps of staging do to the disk: each adds one entry at a place that was free, and
leaves every file as it was.
-/

namespace GoREgo.Worker

open Lib

inductive Shape
  | dir
  | file (data : Bytes)
  | symlink (target : String)
deriving DecidableEq, Repr

namespace Host

def shapeOf (host : Host) : Entry Nat → Shape
  | .dir => .dir
  | .file inode => .file (host.volume.files inode).data
  | .symlink target => .symlink target

def shape (host : Host) (path : Path) : Option Shape :=
  (host.volume.entries path).map host.shapeOf

variable {host host' host'' : Host} {path target : Path} {name : String} {kind : Shape}

theorem entries_of_dir (shown : host.shape path = some .dir)
    : host.volume.entries path = some .dir := by
  obtain ⟨entry, found, same⟩ := Option.map_eq_some_iff.mp shown
  cases entry with
  | dir => exact found
  | file inode => cases same
  | symlink target => cases same

theorem shape_of_dir (isDir : host.volume.entries path = some .dir)
    : host.shape path = some .dir := by
  rw [shape, isDir]
  rfl

theorem entries_of_none (shown : host.shape path = none) : host.volume.entries path = none :=
  Option.map_eq_none_iff.mp shown

theorem shape_of_none (free : host.volume.entries path = none) : host.shape path = none := by
  rw [shape, free]
  rfl

structure Keeps (host host' : Host) : Prop where
  blobs : host'.blobs = host.blobs
  next : host.volume.next ≤ host'.volume.next
  data : ∀ inode < host.volume.next,
    (host'.volume.files inode).data = (host.volume.files inode).data

theorem Keeps.refl (host : Host) : Keeps host host :=
  ⟨rfl, Nat.le_refl _, fun _ _ => rfl⟩

theorem Keeps.trans (first : Keeps host host') (second : Keeps host' host'')
    : Keeps host host'' where
  blobs := second.blobs.trans first.blobs
  next := Nat.le_trans first.next second.next
  data inode before := by
    rw [second.data inode (Nat.lt_of_lt_of_le before first.next), first.data inode before]

theorem keeps_addExecutable (host : Host) (inode : Nat) (executable : Bool)
    : Keeps host (host.addExecutable inode executable) := by
  refine ⟨rfl, Nat.le_refl _, ?_⟩
  intro old _
  by_cases same : old = inode
  · subst same
    simp [addExecutable, Volume.modify]
  · simp [addExecutable, Volume.modify, Function.update_of_ne same]

theorem Keeps.shape (keeps : Keeps host host')
    (same : host'.volume.entries path = host.volume.entries path)
    : host'.shape path = host.shape path := by
  unfold Host.shape
  rw [same]
  cases found : host.volume.entries path with
  | none => rfl
  | some entry =>
      cases entry with
      | dir => rfl
      | symlink target => rfl
      | file inode =>
          have before := host.volume.allocated path inode found
          simp only [Option.map_some, shapeOf, keeps.data inode before]

structure Adds (host host' : Host) (place : Path) (kind : Shape) : Prop where
  keeps : Keeps host host'
  made : host'.shape place = some kind
  elsewhere : ∀ path, path ≠ place → host'.shape path = host.shape path

theorem Adds.of_entries {place : Path} {entry : Entry Nat} (keeps : Keeps host host')
    (entries : host'.volume.entries = Function.update host.volume.entries place (some entry))
    (same : host'.shapeOf entry = kind)
    : Adds host host' place kind where
  keeps := keeps
  made := by
    rw [Host.shape, entries, Function.update_self, Option.map_some, same]
  elsewhere path other := by
    refine keeps.shape ?_
    rw [entries, Function.update_of_ne other]

theorem Adds.after {place : Path} (keeps : Keeps host host')
    (entries : host'.volume.entries = host.volume.entries) (adds : Adds host' host'' place kind)
    : Adds host host'' place kind where
  keeps := keeps.trans adds.keeps
  made := adds.made
  elsewhere path other := by
    rw [adds.elsewhere path other]
    exact keeps.shape (congrFun entries path)

end Host

namespace Stager

variable {w : Stager} {host : Host} {dir : Path} {name : String}

abbrev Works {α : Type} (program : StageM α) (good : α → Host → Prop) (host : Host) : Prop :=
  Ends program good (fun _ _ => False) host

theorem onVolume_ends {α : Type} {calls : Volume.SysM File α} {good : α → Host → Prop}
    {bad : Stop → Host → Prop}
    (ends : Ends calls (fun value volume => good value { host with volume := volume })
      (fun err volume => bad (.failed (.plain err.text)) { host with volume := volume }) host.volume)
    : Ends (onVolume calls) good bad host := by
  unfold Ends onVolume
  cases ran : calls host.volume with
  | ok value volume => exact ends.of_eq_ok ran
  | error err volume => exact ends.of_eq_error ran

theorem onVolume_works {α : Type} {calls : Volume.SysM File α} {value : α}
    {volume : Volume File} {good : α → Host → Prop}
    (ran : calls host.volume = .ok value volume)
    (holds : good value { host with volume := volume })
    : Works (onVolume calls) good host := by
  unfold Works Ends onVolume
  rw [ran]
  exact holds

theorem checked_works {α : Type} {result : Except GoError α} {value : α}
    {good : α → Host → Prop} (passed : result = .ok value) (holds : good value host)
    : Works (checked result) good host := by
  subst passed
  exact Ends.pure holds

theorem newFromProto_ends (digest : Option Digest)
    : Ends (w.newFromProto digest)
        (fun value host' => host' = host ∧ w.sdk.newFromProto digest = .ok (.ok value))
        (fun _ host' => host' = host) host := by
  unfold newFromProto
  cases passed : w.sdk.newFromProto digest with
  | error panic => exact Ends.throw rfl
  | ok result =>
      cases result with
      | error err => exact Ends.throw rfl
      | ok value => exact Ends.pure ⟨rfl, rfl⟩

theorem newFromProto_works {digest : Option Digest} {value : Digest} {good : Digest → Host → Prop}
    (passed : w.sdk.newFromProto digest = .ok (.ok value)) (holds : good value host)
    : Works (w.newFromProto digest) good host := by
  unfold newFromProto
  rw [passed]
  exact Ends.pure holds

variable {inode : Nat}

theorem get_works {digest : Digest} {good : Nat → Host → Prop}
    (blob : host.blobs digest = some inode) (holds : good inode host)
    : Works (w.get digest) good host := by
  unfold Works Ends get
  rw [blob]
  exact holds

theorem get_ends (digest : Digest)
    : Ends (w.get digest) (fun inode host' => host' = host ∧ host.blobs digest = some inode)
        (fun _ host' => host' = host) host := by
  unfold Ends get
  cases blob : host.blobs digest with
  | none => exact rfl
  | some inode => exact ⟨rfl, rfl⟩

theorem fetchDirectory_cases (digest : Digest)
    : (∃ dir, w.directoryAt host digest = some dir ∧ w.fetchDirectory digest host = .ok dir host)
      ∨ w.directoryAt host digest = none
        ∧ ∃ err, w.fetchDirectory digest host = .error (.failed err) host := by
  unfold directoryAt
  cases blob : host.blobs digest with
  | none =>
      have missing : w.get digest host = .error (.failed (w.missing digest)) host := by
        simp only [get, blob]
      exact .inr ⟨rfl, _, run_bind_error missing⟩
  | some inode =>
      have opened : w.get digest host = .ok inode host := by simp only [get, blob]
      have read : w.fetchDirectory digest host
          = checked (w.unmarshalDirectory (host.volume.files inode).data) host :=
        run_bind_ok opened
      cases decoded : w.unmarshalDirectory (host.volume.files inode).data with
      | error err => exact .inr ⟨by simp [decoded, Except.toOption], err, by rw [read, decoded]; rfl⟩
      | ok dir => exact .inl ⟨dir, by simp [decoded, Except.toOption], by rw [read, decoded]; rfl⟩

theorem fetchDirectory_ok {digest : Digest} {dir : Directory}
    (found : w.directoryAt host digest = some dir)
    : w.fetchDirectory digest host = .ok dir host := by
  rcases @fetchDirectory_cases w host digest with ⟨dir', found', ran⟩ | ⟨absent, -⟩
  · rw [ran, Option.some.inj (found.symm.trans found')]
  · cases found.symm.trans absent

theorem fetchDirectory_ends (digest : Digest)
    : Ends (w.fetchDirectory digest)
        (fun dir host' => host' = host ∧ w.directoryAt host digest = some dir)
        (fun stop host' => host' = host ∧ ∃ err, stop = .failed err) host := by
  unfold Ends
  rcases @fetchDirectory_cases w host digest with ⟨dir, found, ran⟩ | ⟨-, err, ran⟩
  · rw [ran]
    exact ⟨rfl, found⟩
  · rw [ran]
    exact ⟨rfl, err, rfl⟩

/-- A loop over nodes with distinct labels takes them off what is pending, by induction on the
nodes.
-/
theorem forM_pending {ν : Type} {label : ν → String} {body : ν → StageM PUnit}
    {holds : List String → Host → Prop} {bad : Stop → Host → Prop} {nodes : List ν}
    {others : List String} {host : Host} (distinct : (nodes.map label ++ others).Nodup)
    (each : ∀ node ∈ nodes, ∀ pending host, label node ∉ pending →
      holds (label node :: pending) host →
      Ends (body node) (fun _ host' => holds pending host') bad host)
    (start : holds (nodes.map label ++ others) host)
    : Ends (forM nodes body) (fun _ host' => holds others host') bad host := by
  induction nodes generalizing host with
  | nil => exact Ends.pure start
  | cons node nodes ih =>
      obtain ⟨fresh, distinct⟩ := List.nodup_cons.mp distinct
      rw [List.forM_cons]
      refine Ends.bind ((each node List.mem_cons_self _ host fresh start).imp ?_)
      intro _ host' holds
      exact ih distinct (fun node held => each node (List.mem_cons_of_mem _ held)) holds

variable (isDir : host.volume.entries dir = some .dir) (normal : Path.Normal name)
  (free : host.volume.entries (dir ++ [name]) = none)

include isDir normal free

theorem symlink_works {target : String} (nonempty : target ≠ "")
    : Works (onVolume (Volume.symlink target (dir ++ [name])))
        (fun _ host' => host.Adds host' (dir ++ [name]) (.symlink target)) host := by
  have ran : Volume.symlink target (dir ++ [name]) host.volume = .ok ()
      (host.volume.add dir name (.symlink target) isDir normal free trivial) := by
    rw [Volume.symlink, if_neg nonempty]
    exact Volume.insert_in_dir isDir normal free _ _ _
  exact onVolume_works ran (.of_entries ⟨rfl, Nat.le_refl _, fun _ _ => rfl⟩ rfl rfl)

theorem mkdirAll_works
    : Works (onVolume (Volume.mkdirAll (dir ++ [name])))
        (fun _ host' => host.Adds host' (dir ++ [name]) .dir) host :=
  onVolume_works (Volume.mkdirAll_in_dir isDir normal free)
    (.of_entries ⟨rfl, Nat.le_refl _, fun _ _ => rfl⟩ rfl rfl)

theorem copyFile_works (before : inode < host.volume.next) (executable : Bool)
    : Works (copyFile inode (dir ++ [name]) executable)
        (fun _ host' => host.Adds host' (dir ++ [name])
          (.file (host.volume.files inode).data)) host := by
  refine Ends.bind (onVolume_works (Volume.openTrunc_in_dir isDir normal free _ _) ?_)
  refine Ends.bind ?_
  have other : inode ≠ host.volume.next := Nat.ne_of_lt before
  refine .of_entries ⟨rfl, Nat.le_succ _, ?_⟩ rfl ?_
  · intro old earlier
    have apart : old ≠ host.volume.next := Nat.ne_of_lt earlier
    simp [Volume.modify, Volume.add, Volume.alloc, Function.update_of_ne apart]
  · simp [Host.shapeOf, Volume.modify, Volume.add, Volume.alloc, Function.update_of_ne other]

theorem tryLink_works (before : inode < host.volume.next)
    : Works (w.tryLink inode (dir ++ [name]))
        (fun linked host' =>
          if linked then
            host.Adds host' (dir ++ [name]) (.file (host.volume.files inode).data)
          else
            host' = host) host := by
  unfold Works Ends tryLink
  by_cases linkable : w.linkable = true
  · have ran : Volume.link inode (dir ++ [name]) host.volume = .ok ()
        (host.volume.add dir name (.file inode) isDir normal free before) :=
      Volume.insert_in_dir isDir normal free _ _ _
    rw [if_pos linkable, ran]
    exact .of_entries ⟨rfl, Nat.le_refl _, fun _ _ => rfl⟩ rfl rfl
  · rw [if_neg linkable]
    rfl

theorem linkFile_works (before : inode < host.volume.next) (executable : Bool)
    : Works (w.linkFile inode (dir ++ [name]) executable)
        (fun _ host' => host.Adds host' (dir ++ [name])
          (.file (host.volume.files inode).data)) host := by
  -- the executable bit is set on the shared inode first; it shows in no shape
  have keeps := host.keeps_addExecutable inode executable
  have data := keeps.data inode before
  have isDir' : (host.addExecutable inode executable).volume.entries dir = some .dir := isDir
  have free' : (host.addExecutable inode executable).volume.entries (dir ++ [name]) = none := free
  refine Ends.bind (Ends.bind ((tryLink_works isDir' normal free' before).imp ?_))
  intro linked host₁ outcome
  split at outcome
  next yes =>
    rw [if_pos yes]
    exact Ends.pure (.after keeps rfl (data ▸ outcome))
  next no =>
    rw [if_neg no, outcome]
    exact (copyFile_works isDir' normal free' before executable).imp
      (fun _ _ adds => .after keeps rfl (data ▸ adds))

theorem stageFile_works {digest : Digest} (blob : host.blobs digest = some inode)
    (before : inode < host.volume.next) (executable : Bool)
    : Works (w.stageFile (dir ++ [name]) digest executable)
        (fun _ host' => host.Adds host' (dir ++ [name])
          (.file (host.volume.files inode).data)) host := by
  refine Ends.bind (get_works blob ?_)
  split
  next => exact linkFile_works isDir normal free before executable
  next => exact copyFile_works isDir normal free before executable

end Stager

def Host.Ready (host : Host) (target : Path) : Prop :=
  (host.volume.entries target = some .dir
      ∧ ∀ name, host.volume.entries (target ++ [name]) = none)
    ∨ ∃ dir name, target = dir ++ [name] ∧ host.volume.entries dir = some .dir
      ∧ Path.Normal name ∧ host.volume.entries target = none

theorem Host.Ready.nothing_below {host : Host} {target : Path} (ready : host.Ready target)
    (name : String) (rel : Path)
    : host.shape (target ++ name :: rel) = none := by
  refine shape_of_none ?_
  cases found : host.volume.entries (target ++ name :: rel) with
  | none => rfl
  | some entry =>
      rcases ready with ⟨-, empty⟩ | ⟨dir, last, rfl, -, -, free⟩
      · cases rel with
        | nil =>
            rw [empty name] at found
            cases found
        | cons next rel =>
            have split : target ++ name :: next :: rel = (target ++ [name]) ++ next :: rel := by
              simp
            have isDir := Volume.dir_of_below (split ▸ found)
            rw [empty name] at isDir
            cases isDir
      · have isDir := Volume.dir_of_below found
        rw [free] at isDir
        cases isDir

end GoREgo.Worker
