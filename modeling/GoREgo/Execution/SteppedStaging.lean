import GoREgo.Execution.StagedModes
import GoREgo.Execution.StagingSteps

/-! A directory that `Worker.Stager` opens in one go, with its files and links, is opened by steps
of a staging that is alone in the store. The two agree on the inodes and their modes.
-/

namespace GoREgo.Worker.Modes

open Lib Worker.Stager

/-- The modes and the blobs of a disk. -/
structure Shows (host : Host) (disk : Disk) : Prop where
  next : disk.next = host.volume.next
  modes : ∀ inode, disk.executable inode = (host.volume.files inode).executable
  cas : ∀ digest : Digest, disk.cas digest.hash = host.blobs digest

/-- A staging comes by its own steps from one point to another. -/
def Alone (inputs : Inputs) (disk : Disk) (st : Stager) (disk' : Disk) (st' : Stager) : Prop :=
  ∃ actions : List Action, (State.machine inputs).Run Machine.anyStep ⟨disk, [st]⟩
    (actions.map (Label.stage 0)) ⟨disk', [st']⟩

variable {inputs : Inputs} {disk disk₁ disk₂ : Disk} {st st₁ st₂ : Stager}

theorem Alone.refl : Alone inputs disk st disk st :=
  ⟨[], .nil _⟩

theorem Alone.step (before : Alone inputs disk st disk₁ st₁) {action : Action}
    (taken : st₁.step inputs disk₁ action = some (disk₂, st₂))
    : Alone inputs disk st disk₂ st₂ := by
  obtain ⟨actions, run⟩ := before
  refine ⟨actions ++ [action], ?_⟩
  rw [List.map_append]
  refine run.snoc trivial ?_
  simp [State.machine, State.step, taken]

variable {w : Worker.Stager} {host host₁ : Host} {node : FileNode} {path : Path} {rest : List Item}
  {digest : Digest} {inode : Nat}

/-- Where a staging stands beside a disk: with some work to do. -/
structure Stands (inputs : Inputs) (disk : Disk) (st : Stager) (todo : List Item) (host₁ : Host)
    (disk₁ : Disk) (st₁ : Stager) : Prop where
  alone : Alone inputs disk st disk₁ st₁
  idle : st₁.place = .idle
  todo : st₁.todo = todo
  shows : Shows host₁ disk₁

theorem Shows.sameFiles (shows : Shows host disk) {volume : Volume File}
    (same : host.volume.SameFiles volume)
    : Shows { host with volume := volume } disk where
  next := shows.next.trans same.2.symm
  modes inode := by rw [shows.modes, ← same.1]
  cas := shows.cas

/-- A file that is changed where its mode does not show. -/
theorem Shows.setData (shows : Shows host disk) (inode : Nat) (data : Bytes)
    : Shows { host with volume := host.volume.modify inode (fun file => { file with data := data }) }
        disk where
  next := shows.next
  modes other := by
    rw [shows.modes]
    by_cases same : other = inode
    · subst same
      simp [Volume.modify]
    · simp [Volume.modify, Function.update_of_ne same]
  cas := shows.cas

/-- The copy makes a file or opens one that is there, and leaves the modes of the others. -/
theorem copyFile_steps (shows : Shows host disk₁) (alone : Alone inputs disk st disk₁ st₁)
    {hash : String} (copying : st₁.place = .copying hash)
    (todo : st₁.todo = .file path node :: rest)
    : Ends (copyFile inode path node.isExecutable)
        (fun _ host' => ∃ disk' st', Stands inputs disk st rest host' disk' st')
        (fun _ _ => True) host := by
  refine Ends.bind (onVolume_ends (Ends.intro (fun target volume ran => ?_) (fun _ _ _ => trivial)))
  refine Ends.bind ?_
  rcases Volume.openTrunc_files ran with ⟨old, next, files⟩ | ⟨rfl, next, files⟩
  · have taken : st₁.step inputs disk₁ (.overwrite target)
        = some (disk₁, st₁.finish rest ⟨path, node, hash, target⟩) := by
      simp [Stager.step, copying, todo, shows.next, old]
    have opened : Shows { host with volume := volume } disk₁ := by
      refine ⟨shows.next.trans next.symm, fun other => ?_, shows.cas⟩
      rw [shows.modes, files]
      by_cases same : other = target
      · subst same
        simp
      · rw [Function.update_of_ne same]
    exact ⟨_, _, alone.step taken, rfl, rfl, opened.setData target _⟩
  · have taken : st₁.step inputs disk₁ .create
        = some (disk₁.create node.isExecutable,
            st₁.finish rest ⟨path, node, hash, disk₁.next⟩) := by
      simp [Stager.step, copying, todo]
    have opened : Shows { host with volume := volume } (disk₁.create node.isExecutable) := by
      refine ⟨?_, fun other => ?_, shows.cas⟩
      · rw [next, ← shows.next]
        rfl
      · rw [files, Disk.create_executable, shows.next]
        by_cases same : other = host.volume.next
        · subst same
          simp
        · rw [Function.update_of_ne same, Function.update_of_ne same, shows.modes]
    exact ⟨_, _, alone.step taken, rfl, rfl, opened.setData _ _⟩

/-- `Stat` and `Chmod` of the blob, up to its link. -/
theorem addExecutable_steps (shows : Shows host disk₁) (alone : Alone inputs disk st disk₁ st₁)
    {hash : String} (opened : st₁.place = .opened hash)
    (todo : st₁.todo = .file path node :: rest) (stored : disk₁.cas hash = some inode)
    : ∃ disk₂, Alone inputs disk st disk₂ (st₁.goto (.linking hash))
        ∧ Shows (host.addExecutable inode node.isExecutable) disk₂ := by
  have same : (node.isExecutable = true → disk₁.executable inode = true) →
      Shows (host.addExecutable inode node.isExecutable) disk₁ := by
    intro already
    refine ⟨shows.next, fun other => ?_, shows.cas⟩
    rw [shows.modes]
    by_cases here : other = inode
    · subst here
      rw [shows.modes] at already
      cases is : node.isExecutable <;> simp_all [Host.addExecutable, Volume.modify]
    · simp [Host.addExecutable, Volume.modify, Function.update_of_ne here]
  by_cases executable : node.isExecutable = true
  · by_cases already : disk₁.executable inode = true
    · refine ⟨disk₁, @Alone.step _ _ _ _ _ _ _ alone .stat ?_, same (fun _ => already)⟩
      simp [Stager.step, opened, todo, executable, stored, already]
    · have stat : st₁.step inputs disk₁ .stat = some (disk₁, st₁.goto (.marking hash)) := by
        simp [Stager.step, opened, todo, executable, stored, already]
      have chmod : (st₁.goto (.marking hash)).step inputs disk₁ .chmod
          = some (disk₁.chmod inode true, st₁.goto (.linking hash)) := by
        simp [Stager.step, Stager.goto, stored]
      refine ⟨_, (alone.step stat).step chmod, shows.next, fun other => ?_, shows.cas⟩
      by_cases here : other = inode
      · subst here
        simp [Host.addExecutable, Volume.modify, executable]
      · simp [Host.addExecutable, Volume.modify, Function.update_of_ne here, shows.modes]
  · refine ⟨disk₁, @Alone.step _ _ _ _ _ _ _ alone .stat ?_, same (fun is => absurd is executable)⟩
    simp [Stager.step, opened, todo, executable]

theorem tryLink_ends (inode : Nat) (path : Path)
    : Ends (w.tryLink inode path)
        (fun _ host' => ∃ volume, host' = { host with volume := volume }
          ∧ host.volume.SameFiles volume)
        (fun _ _ => False) host := by
  unfold Ends tryLink
  by_cases linkable : w.linkable = true
  · have linked := Volume.insert_sameFiles "link" path.text path (.file inode) host.volume
    rw [if_pos linkable]
    cases ran : Volume.link inode path host.volume with
    | ok value volume => exact ⟨volume, rfl, linked.of_eq_ok ran⟩
    | error err volume => exact ⟨volume, rfl, linked.of_eq_error ran⟩
  · rw [if_neg linkable]
    exact ⟨host.volume, rfl, rfl, rfl⟩

/-- `stageFile` of a node, from the SDK's check of its digest to the link or the copy. -/
theorem stageFileNode_steps {target : Path} (locals : w.localBlobs = true)
    (same : inputs.sdk = w.sdk)
    (stands : Stands inputs disk st (.file (Path.join target node.name) node :: rest) host disk₁ st₁)
    : Ends (w.stageFileNode target node)
        (fun _ host' => ∃ disk' st', Stands inputs disk st rest host' disk' st')
        (fun _ _ => True) host := by
  refine Ends.bind ((newFromProto_ends node.digest).mono ?_ (fun _ _ _ => trivial))
  rintro digest host ⟨rfl, valid⟩
  refine Ends.adaptExcept (Ends.bind ((get_ends digest).mono ?_ (fun _ _ _ => trivial)))
  rintro inode host ⟨rfl, blob⟩
  rw [if_pos locals]
  have stored : disk₁.cas digest.hash = some inode := (stands.shows.cas digest).trans blob
  have taken : st₁.step inputs disk₁ .get = some (disk₁, st₁.goto (.opened digest.hash)) := by
    simp [Stager.step, stands.idle, stands.todo, Inputs.hash?, same, valid, stored]
  obtain ⟨disk₂, alone, shows⟩ :=
    addExecutable_steps stands.shows (stands.alone.step taken) rfl stands.todo stored
  have stored₂ : disk₂.cas digest.hash = some inode := (shows.cas digest).trans blob
  refine Ends.bind (Ends.bind ((tryLink_ends inode _).mono ?_ (fun _ _ => False.elim)))
  rintro linked _ ⟨volume, rfl, files⟩
  have shows := shows.sameFiles files
  cases linked with
  | true =>
      have link : (st₁.goto (.linking digest.hash)).step inputs disk₂ .link
          = some (disk₂, (st₁.goto (.linking digest.hash)).finish rest
              ⟨Path.join target node.name, node, digest.hash, inode⟩) := by
        simp [Stager.step, Stager.goto, stands.todo, stored₂]
      exact Ends.pure ⟨_, _, alone.step link, rfl, rfl, shows⟩
  | false =>
      have unlinked : (st₁.goto (.linking digest.hash)).step inputs disk₂ .unlinked
          = some (disk₂, (st₁.goto (.linking digest.hash)).goto (.copying digest.hash)) := rfl
      exact copyFile_steps shows (alone.step unlinked) rfl stands.todo

theorem stageSymlink_steps {target : Path} {link : SymlinkNode}
    (stands : Stands inputs disk st (.symlink (Path.join target link.name) link :: rest) host disk₁
      st₁)
    : Ends (stageSymlink target link)
        (fun _ host' => ∃ disk' st', Stands inputs disk st rest host' disk' st')
        (fun _ _ => True) host := by
  refine Ends.adaptExcept (onVolume_ends ?_)
  have taken : st₁.step inputs disk₁ .symlink = some (disk₁, { st₁ with todo := rest }) := by
    simp [Stager.step, stands.idle, stands.todo]
  unfold Volume.symlink
  split
  next => exact Ends.throw trivial
  next =>
    refine (Volume.insert_sameFiles _ _ _ _ host.volume).mono (fun _ volume same => ?_)
      (fun _ _ _ => trivial)
    exact ⟨_, _, stands.alone.step taken, stands.idle, rfl, stands.shows.sameFiles same⟩

/-- Opening a directory, with its files and its links, is a run of the steps of a staging: the
work that is left is that of its subdirectories.
-/
theorem openDirectory_steps {target : Path} {given : Option Digest} (locals : w.localBlobs = true)
    (same : inputs.sdk = w.sdk) (valid : w.sdk.newFromProto given = .ok (.ok digest))
    (message : inputs.dirs digest.hash = w.directoryAt host digest)
    (stands : Stands inputs disk st (.dir target given :: rest) host disk₁ st₁)
    : Ends (w.openDirectory target digest)
        (fun dir host' => ∃ disk' st', Stands inputs disk st
          (dir.directories.map (fun node => .dir (Path.join target node.name) node.digest) ++ rest)
          host' disk' st')
        (fun _ _ => True) host := by
  refine Ends.bind (onVolume_ends ((Volume.mkdirAll_sameFiles target host.volume).mono ?_
    (fun _ _ _ => trivial)))
  intro _ volume files
  have unchanged : w.directoryAt { host with volume := volume } digest = w.directoryAt host digest := by
    rw [directoryAt, directoryAt, files.1]
  refine Ends.bind ((fetchDirectory_ends digest).mono ?_ (fun _ _ _ => trivial))
  rintro dir _ ⟨rfl, found⟩
  rw [unchanged] at found
  obtain ⟨inode, blob⟩ : ∃ inode, host.blobs digest = some inode := by
    cases blob : host.blobs digest with
    | none =>
        rw [directoryAt, blob] at found
        cases found
    | some inode => exact ⟨inode, rfl⟩
  have taken : st₁.step inputs disk₁ .enter
      = some (disk₁, { st₁ with todo := items target dir ++ rest }) := by
    simp [Stager.step, stands.idle, stands.todo, Inputs.hash?, same, valid,
      (stands.shows.cas digest).trans blob, message, found]
  refine Ends.bind ((Ends.forM (fun nodes host' => ∃ disk' st', Stands inputs disk st
    (nodes.map (fun node => .file (Path.join target node.name) node)
      ++ (dir.symlinks.map (fun node => .symlink (Path.join target node.name) node)
        ++ (dir.directories.map (fun node => .dir (Path.join target node.name) node.digest)
          ++ rest))) host' disk' st') ?_ ?_).imp ?_)
  · refine ⟨disk₁, _, stands.alone.step taken, stands.idle, ?_, stands.shows.sameFiles files⟩
    simp [items]
  · rintro node nodes host₁ ⟨disk', st', stands⟩
    exact stageFileNode_steps locals same stands
  intro _ host₁ start
  refine Ends.bind ((Ends.forM (fun nodes host' => ∃ disk' st', Stands inputs disk st
    (nodes.map (fun node => .symlink (Path.join target node.name) node)
      ++ (dir.directories.map (fun node => .dir (Path.join target node.name) node.digest)
        ++ rest)) host' disk' st') start ?_).imp ?_)
  · rintro node nodes host₁ ⟨disk', st', stands⟩
    exact stageSymlink_steps stands
  · intro _ host₂ stands
    exact Ends.pure stands

end GoREgo.Worker.Modes
