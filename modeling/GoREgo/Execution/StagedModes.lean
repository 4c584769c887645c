import GoREgo.Execution.FileTree
import GoREgo.Lib.Machine
import GoREgo.Lib.Slots
import Mathlib.Data.List.Nodup
import Mathlib.Logic.Function.Basic

/-! The modes of staged inputs, where many actions stage from one local store. `stageFile` makes
the file of a blob executable in the store and links it, so that all links to the blob share one
mode; `Put`, `PutFile` and the janitor change modes in the store as well. Every system call is a
step, and steps of all callers interleave.
-/

namespace GoREgo.Worker.Modes

open Lib

/-- How far an upload is: its temporary file is a link to the uploaded one, or it is ready to be
renamed (by `PutFile`, or by `Put` which changes the mode afterwards), it has been renamed, or it
is over.
-/
inductive Phase
  | linked
  | ready (putFile : Bool)
  | renamed
  | done
deriving DecidableEq, Repr

def Phase.placed : Phase → Bool
  | .renamed | .done => true
  | _ => false

/-- A `Put` or `PutFile` of a blob, with the inode of its temporary file. -/
structure Upload where
  hash : String
  inode : Nat
  phase : Phase
deriving DecidableEq, Repr

/-- The executable bit of each inode, the next free inode, and the inode at the path of each hash
in the CAS; the size of a digest is not in the path.
-/
structure Disk where
  executable : Nat → Bool
  next : Nat
  cas : String → Option Nat
  uploads : List Upload

namespace Disk

def chmod (disk : Disk) (inode : Nat) (executable : Bool) : Disk :=
  { disk with executable := Function.update disk.executable inode executable }

def create (disk : Disk) (executable : Bool) : Disk :=
  { disk with
    executable := Function.update disk.executable disk.next executable
    next := disk.next + 1 }

def chmodBlob (disk : Disk) (hash : String) (executable : Bool) : Disk :=
  match disk.cas hash with
  | some inode => disk.chmod inode executable
  | none => disk

def setBlob (disk : Disk) (hash : String) (inode : Option Nat) : Disk :=
  { disk with cas := Function.update disk.cas hash inode }

def advance (disk : Disk) (u : Nat) (upload : Upload) (phase : Phase) : Disk :=
  { disk with uploads := disk.uploads.set u { upload with phase } }

@[simp] theorem chmod_executable (disk : Disk) (inode : Nat) (executable : Bool)
    : (disk.chmod inode executable).executable
      = Function.update disk.executable inode executable :=
  rfl

@[simp] theorem setBlob_cas (disk : Disk) (hash : String) (inode : Option Nat)
    : (disk.setBlob hash inode).cas = Function.update disk.cas hash inode :=
  rfl

@[simp] theorem create_executable (disk : Disk) (executable : Bool)
    : (disk.create executable).executable
      = Function.update disk.executable disk.next executable :=
  rfl

def upload (disk : Disk) (upload : Upload) : Disk :=
  { disk with uploads := disk.uploads ++ [upload] }

end Disk

/-- What `stageDirectory` has still to do, in its order. -/
inductive Item
  | dir (path : Path) (digest : Option Digest)
  | file (path : Path) (node : FileNode)
  | symlink (path : Path) (node : SymlinkNode)
deriving DecidableEq, Repr

/-- The work for a directory: its files, its symlinks, and then its subdirectories. -/
def items (path : Path) (dir : Directory) : List Item :=
  dir.files.map (fun node => .file (Path.join path node.name) node)
    ++ dir.symlinks.map (fun node => .symlink (Path.join path node.name) node)
    ++ dir.directories.map (fun node => .dir (Path.join path node.name) node.digest)

/-- Where a `stageFile` is: before it, with the blob open, before the `chmod` of the blob, before
`os.Link`, or at the copy after a link that failed. A staging that failed does nothing more.
-/
inductive Place
  | idle
  | opened (hash : String)
  | marking (hash : String)
  | linking (hash : String)
  | copying (hash : String)
  | failed
deriving DecidableEq, Repr

structure Staged where
  path : Path
  node : FileNode
  hash : String
  inode : Nat
deriving DecidableEq, Repr

structure Stager where
  target : Path
  root : Digest
  todo : List Item
  place : Place := .idle
  staged : List Staged := []
deriving DecidableEq, Repr

namespace Stager

def goto (st : Stager) (place : Place) : Stager :=
  { st with place := place }

def finish (st : Stager) (rest : List Item) (file : Staged) : Stager :=
  { st with todo := rest, place := .idle, staged := st.staged ++ [file] }

def finished (st : Stager) : Bool :=
  decide (st.todo = [] ∧ st.place = .idle)

/-- Whether the file at hand shall be executable. -/
def wants (st : Stager) : Bool :=
  match st.todo with
  | .file _ node :: _ => node.isExecutable
  | _ => false

def tree (st : Stager) (executable : Nat → Bool) : List (Path × FileNode) :=
  st.staged.map (fun file =>
    (file.path, { file.node with isExecutable := executable file.inode }))

end Stager

/-- Steps of a `stageInputs` call. `enter` takes up a directory, `link` is an `os.Link` that works
and `unlinked` one that does not; the copy makes a new file, or opens one that is at the target.
Any call may fail.
-/
inductive Action
  | enter
  | symlink
  | get
  | stat
  | chmod
  | link
  | unlinked
  | create
  | overwrite (inode : Nat)
  | fail
deriving DecidableEq, Repr

/-- What the stagings read: the SDK's check of digests, and what the blobs are as `Directory`
messages.
-/
structure Inputs where
  sdk : Server.Sdk
  dirs : String → Option Directory

def Inputs.hash? (inputs : Inputs) (digest : Option Digest) : Option String :=
  match inputs.sdk.newFromProto digest with
  | .ok (.ok digest) => some digest.hash
  | _ => none

/-- One step of a `stageInputs` call. -/
def Stager.step (inputs : Inputs) (disk : Disk) (st : Stager) : Action → Option (Disk × Stager)
  | .enter =>
      match st.place, st.todo with
      | .idle, .dir path digest :: rest =>
          (inputs.hash? digest).bind (fun hash =>
            match disk.cas hash, inputs.dirs hash with
            | some _, some dir => some (disk, { st with todo := items path dir ++ rest })
            | _, _ => none)
      | _, _ => none
  | .symlink =>
      match st.place, st.todo with
      | .idle, .symlink _ _ :: rest => some (disk, { st with todo := rest })
      | _, _ => none
  | .get =>
      match st.place, st.todo with
      | .idle, .file _ node :: _ =>
          (inputs.hash? node.digest).bind (fun hash =>
            if (disk.cas hash).isSome then some (disk, st.goto (.opened hash)) else none)
      | _, _ => none
  | .stat =>
      match st.place, st.todo with
      | .opened hash, .file _ node :: _ =>
          if node.isExecutable then
            (disk.cas hash).map (fun inode =>
              if disk.executable inode then (disk, st.goto (.linking hash))
              else (disk, st.goto (.marking hash)))
          else
            some (disk, st.goto (.linking hash))
      | _, _ => none
  | .chmod =>
      match st.place with
      | .marking hash =>
          (disk.cas hash).map (fun inode =>
            (disk.chmod inode true, st.goto (.linking hash)))
      | _ => none
  | .link =>
      match st.place, st.todo with
      | .linking hash, .file path node :: rest =>
          (disk.cas hash).map (fun inode => (disk, st.finish rest ⟨path, node, hash, inode⟩))
      | _, _ => none
  | .unlinked =>
      match st.place with
      | .linking hash => some (disk, st.goto (.copying hash))
      | _ => none
  | .create =>
      match st.place, st.todo with
      | .copying hash, .file path node :: rest =>
          some (disk.create node.isExecutable, st.finish rest ⟨path, node, hash, disk.next⟩)
      | _, _ => none
  | .overwrite inode =>
      match st.place, st.todo with
      | .copying hash, .file path node :: rest =>
          if inode < disk.next then some (disk, st.finish rest ⟨path, node, hash, inode⟩)
          else none
      | _, _ => none
  | .fail => some (disk, st.goto .failed)

/-- Steps of all who use the store. `create` is a command that makes an output; `putFile` has
found no file at the path of the blob and links an inode, or copies; `evict` is the janitor's
`Remove` with the `chmod` before it.
-/
inductive Label
  | begin (target : Path) (root : Digest)
  | stage (t : Nat) (action : Action)
  | create (executable : Bool)
  | put (hash : String)
  | putFile (hash : String) (source : Option Nat)
  | chmodLinked (u : Nat)
  | rename (u : Nat)
  | chmodRenamed (u : Nat)
  | evictChmod (hash : String)
  | evictRemove (hash : String)
deriving DecidableEq, Repr

structure State where
  disk : Disk
  stagers : List Stager

namespace State

/-- One step on the disk that is no step of a staging. -/
def stepDisk (disk : Disk) : Label → Option Disk
  | .create executable => some (disk.create executable)
  | .put hash => some ((disk.create false).upload ⟨hash, disk.next, .ready false⟩)
  | .putFile hash source =>
      if disk.cas hash = none then
        match source with
        | none => some ((disk.create false).upload ⟨hash, disk.next, .ready true⟩)
        | some inode =>
            if inode < disk.next then some (disk.upload ⟨hash, inode, .linked⟩) else none
      else
        none
  | .chmodLinked u =>
      (disk.uploads[u]?).bind (fun upload =>
        if upload.phase = .linked then
          some ((disk.chmod upload.inode false).advance u upload (.ready true))
        else
          none)
  | .rename u =>
      (disk.uploads[u]?).bind (fun upload =>
        match upload.phase with
        | .ready putFile =>
            some ((disk.setBlob upload.hash (some upload.inode)).advance u upload
              (if putFile then .done else .renamed))
        | _ => none)
  | .chmodRenamed u =>
      (disk.uploads[u]?).bind (fun upload =>
        if upload.phase = .renamed then
          some ((disk.chmodBlob upload.hash false).advance u upload .done)
        else
          none)
  | .evictChmod hash => some (disk.chmodBlob hash false)
  | .evictRemove hash => some (disk.setBlob hash none)
  | .begin _ _ | .stage _ _ => none

def step (inputs : Inputs) (s : State) : Label → Option State
  | .begin target root =>
      some { s with
        stagers := s.stagers ++ [{ target, root, todo := [.dir target (some root)] }] }
  | .stage t action =>
      (s.stagers[t]?).bind (fun st =>
        (st.step inputs s.disk action).map (fun next =>
          { disk := next.1, stagers := s.stagers.set t next.2 }))
  | label => (stepDisk s.disk label).map (fun disk => { s with disk := disk })

def machine (inputs : Inputs) : Machine State Label where
  initial s := s.stagers = [] ∧ s.disk.uploads = [] ∧ s.disk.cas = (fun _ => none)
  step := step inputs

def Unlinking (exe : String → Bool) (s : State) (hash : String) : Prop :=
  exe hash = true → ∀ st ∈ s.stagers, st.place ≠ .linking hash

/-- The file of an executable blob is not staged, and no staging is about to link it. -/
def Spares (exe : String → Bool) (s : State) (hash : String) : Prop :=
  s.Unlinking exe hash
    ∧ (exe hash = true →
        ∀ st ∈ s.stagers, ∀ file ∈ st.staged, s.disk.cas hash ≠ some file.inode)

def Unused (s : State) (inode : Nat) : Prop :=
  (∀ st ∈ s.stagers, ∀ file ∈ st.staged, file.inode ≠ inode)
    ∧ ∀ upload ∈ s.disk.uploads, upload.inode ≠ inode

/-- The node at hand says of the blob what all say that are linked. -/
def Agrees (exe : String → Bool) (st : Stager) : Prop :=
  match st.place with
  | .marking hash => st.wants = exe hash
  | .linking hash => st.wants = exe hash
  | _ => True

/-- The steps of a run without interference: the nodes of one blob that are linked, or for which
its mode is changed, agree on being executable; between the `chmod` and the link of an executable
file no upload is renamed over it, and no mode in the store is changed back while such a file is
staged; `PutFile` is given files of the command's own; and a copy finds no file at its target.
-/
def Calm (exe : String → Bool) (s : State) : Label → Prop
  | .stage t .chmod => ∀ st ∈ s.stagers[t]?, Agrees exe st
  | .stage t .link => ∀ st ∈ s.stagers[t]?, Agrees exe st
  | .stage _ (.overwrite _) => False
  | .rename u => ∀ upload ∈ s.disk.uploads[u]?, s.Unlinking exe upload.hash
  | .chmodRenamed u => ∀ upload ∈ s.disk.uploads[u]?, s.Spares exe upload.hash
  | .evictChmod hash => s.Spares exe hash
  | .putFile _ (some inode) => s.Unused inode
  | _ => True

end State

/-- The files that a list of work stages, with their nodes, in order. -/
inductive Stages (inputs : Inputs) : List Item → List (Path × FileNode) → Prop
  | nil : Stages inputs [] []
  | file {path node rest out} (later : Stages inputs rest out)
    : Stages inputs (.file path node :: rest) ((path, node) :: out)
  | symlink {path node rest out} (later : Stages inputs rest out)
    : Stages inputs (.symlink path node :: rest) out
  | dir {path given rest out hash dir} (valid : inputs.hash? given = some hash)
    (message : inputs.dirs hash = some dir) (later : Stages inputs (items path dir ++ rest) out)
    : Stages inputs (.dir path given :: rest) out

variable {inputs : Inputs} {exe : String → Bool}

variable {disk disk' : Disk} {st : Stager} {s s' : State}

/-- Each upload has an inode of its own, the store has only files of uploads, and one of them is
executable only for a blob that is.
-/
structure Disk.Sound (exe : String → Bool) (disk : Disk) : Prop where
  distinct : (disk.uploads.map Upload.inode).Nodup
  below : ∀ upload ∈ disk.uploads, upload.inode < disk.next
  blobs : ∀ hash inode, disk.cas hash = some inode →
    ∃ upload ∈ disk.uploads,
      upload.hash = hash ∧ upload.inode = inode ∧ upload.phase.placed = true
  modes : ∀ upload ∈ disk.uploads, upload.phase ≠ .linked →
    disk.executable upload.inode = true → exe upload.hash = true

def Disk.Origin (exe : String → Bool) (disk : Disk) (file : Staged) : Prop :=
  (file.node.isExecutable = exe file.hash
    ∧ ∃ upload ∈ disk.uploads,
        upload.hash = file.hash ∧ upload.inode = file.inode ∧ upload.phase.placed = true)
  ∨ ∀ upload ∈ disk.uploads, upload.inode ≠ file.inode

/-- What holds of a staging: its files have their bits, and what it has staged and has still to
do make up its input root.
-/
structure Stager.Good (inputs : Inputs) (exe : String → Bool) (disk : Disk)
    (st : Stager)
    : Prop where
  right : ∀ file ∈ st.staged, disk.executable file.inode = file.node.isExecutable
  below : ∀ file ∈ st.staged, file.inode < disk.next
  origin : ∀ file ∈ st.staged, disk.Origin exe file
  marking : ∀ hash, st.place = .marking hash → st.wants = true
  linking : ∀ hash, st.place = .linking hash → st.wants = true → exe hash = true →
    ∀ inode, disk.cas hash = some inode → disk.executable inode = true
  planned : ∀ out, Stages inputs st.todo out →
    Stages inputs [.dir st.target (some st.root)]
      (st.staged.map (fun file => (file.path, file.node)) ++ out)

structure State.Sound (inputs : Inputs) (exe : String → Bool) (s : State)
    : Prop where
  disk : s.disk.Sound exe
  good : ∀ st ∈ s.stagers, st.Good inputs exe s.disk

namespace Disk.Sound

variable {upload other : Upload} {u : Nat} {phase : Phase}

theorem unique (sound : disk.Sound exe) (member : upload ∈ disk.uploads)
    (among : other ∈ disk.uploads) (same : upload.inode = other.inode)
    : upload = other :=
  List.inj_on_of_nodup_map sound.distinct member among same

theorem owner (sound : disk.Sound exe) {hash hash' : String} {inode : Nat}
    (held : disk.cas hash = some inode) (held' : disk.cas hash' = some inode)
    : hash = hash' := by
  obtain ⟨upload, member, rfl, rfl, -⟩ := sound.blobs hash inode held
  obtain ⟨upload', member', rfl, same, -⟩ := sound.blobs hash' _ held'
  rw [sound.unique member member' same.symm]

theorem chmod (sound : disk.Sound exe) (member : upload ∈ disk.uploads) {executable : Bool}
    (fits : executable = true → exe upload.hash = true)
    : (disk.chmod upload.inode executable).Sound exe where
  distinct := sound.distinct
  below := sound.below
  blobs := sound.blobs
  modes other among unlinked set := by
    by_cases same : other.inode = upload.inode
    · obtain rfl := sound.unique among member same
      rw [chmod_executable, Function.update_self] at set
      exact fits set
    · rw [chmod_executable, Function.update_of_ne same] at set
      exact sound.modes other among unlinked set

theorem create (sound : disk.Sound exe) (executable : Bool)
    : (disk.create executable).Sound exe where
  distinct := sound.distinct
  below upload member := Nat.lt_succ_of_lt (sound.below upload member)
  blobs := sound.blobs
  modes upload member unlinked set := by
    have old : upload.inode ≠ disk.next := Nat.ne_of_lt (sound.below upload member)
    rw [create_executable, Function.update_of_ne old] at set
    exact sound.modes upload member unlinked set

theorem start (sound : disk.Sound exe) (new : ∀ other ∈ disk.uploads, other.inode ≠ upload.inode)
    (below : upload.inode < disk.next)
    (plain : upload.phase ≠ .linked → disk.executable upload.inode = false)
    : (disk.upload upload).Sound exe where
  distinct := by
    simp only [Disk.upload, List.map_append, List.map_cons, List.map_nil]
    refine List.Nodup.append sound.distinct (List.nodup_singleton _) ?_
    intro inode among single
    obtain ⟨other, member, rfl⟩ := List.mem_map.mp among
    exact new other member (List.mem_singleton.mp single)
  below other member := by
    rcases List.mem_append.mp member with member | member
    · exact sound.below other member
    · obtain rfl := List.mem_singleton.mp member
      exact below
  blobs hash inode held := by
    obtain ⟨other, member, facts⟩ := sound.blobs hash inode held
    exact ⟨other, List.mem_append_left _ member, facts⟩
  modes other member unlinked set := by
    rcases List.mem_append.mp member with member | member
    · exact sound.modes other member unlinked set
    · obtain rfl := List.mem_singleton.mp member
      have set : disk.executable other.inode = true := set
      rw [plain unlinked] at set
      cases set

theorem mem_advance (member : other ∈ (disk.advance u upload phase).uploads)
    : other = { upload with phase } ∨ other ∈ disk.uploads :=
  (List.mem_or_eq_of_mem_set member).symm

theorem advance (sound : disk.Sound exe) (held : disk.uploads[u]? = some upload)
    (placed : upload.phase.placed = true → phase.placed = true)
    (plain : upload.phase = .linked → disk.executable upload.inode = false)
    : (disk.advance u upload phase).Sound exe where
  distinct := by
    have same : (disk.advance u upload phase).uploads.map Upload.inode
        = disk.uploads.map Upload.inode :=
      map_set_of_same Upload.inode held rfl
    rw [same]
    exact sound.distinct
  below other member := by
    rcases mem_advance member with rfl | member
    · exact sound.below upload (List.mem_of_getElem? held)
    · exact sound.below other member
  blobs hash inode stored := by
    obtain ⟨other, member, rfl, rfl, there⟩ := sound.blobs hash inode stored
    by_cases same : other = upload
    · subst same
      exact ⟨_, List.mem_of_getElem? (getElem?_set_of_some held), rfl, rfl, placed there⟩
    · obtain ⟨v, shown⟩ := List.getElem?_of_mem member
      have elsewhere : u ≠ v := by
        rintro rfl
        exact same (Option.some.inj (shown.symm.trans held))
      have kept : (disk.advance u upload phase).uploads[v]? = some other := by
        rw [Disk.advance, List.getElem?_set_ne elsewhere, shown]
      exact ⟨other, List.mem_of_getElem? kept, rfl, rfl, there⟩
  modes other member unlinked set := by
    rcases mem_advance member with rfl | member
    · have set : disk.executable upload.inode = true := set
      refine sound.modes upload (List.mem_of_getElem? held) ?_ set
      intro linked
      rw [plain linked] at set
      cases set
    · exact sound.modes other member unlinked set

theorem place (sound : disk.Sound exe) (member : upload ∈ disk.uploads)
    (placed : upload.phase.placed = true)
    : (disk.setBlob upload.hash (some upload.inode)).Sound exe where
  distinct := sound.distinct
  below := sound.below
  blobs hash inode held := by
    by_cases same : hash = upload.hash
    · subst same
      rw [setBlob_cas, Function.update_self] at held
      exact ⟨upload, member, rfl, Option.some.inj held, placed⟩
    · rw [setBlob_cas, Function.update_of_ne same] at held
      exact sound.blobs hash inode held
  modes := sound.modes

theorem remove (sound : disk.Sound exe) (hash : String)
    : (disk.setBlob hash none).Sound exe where
  distinct := sound.distinct
  below := sound.below
  blobs hash' inode held := by
    by_cases same : hash' = hash
    · subst same
      rw [setBlob_cas, Function.update_self] at held
      cases held
    · rw [setBlob_cas, Function.update_of_ne same] at held
      exact sound.blobs hash' inode held
  modes := sound.modes

end Disk.Sound

structure Disk.Carries (disk disk' : Disk) (st : Stager) : Prop where
  next : disk.next ≤ disk'.next
  placed : ∀ upload ∈ disk.uploads, upload.phase.placed = true →
    ∃ upload' ∈ disk'.uploads, upload'.hash = upload.hash ∧ upload'.inode = upload.inode
      ∧ upload'.phase.placed = true
  own : ∀ file ∈ st.staged, ∀ upload' ∈ disk'.uploads, upload'.inode = file.inode →
    ∃ upload ∈ disk.uploads, upload.inode = file.inode

namespace Stager.Good

theorem carry (good : st.Good inputs exe disk) (carries : disk.Carries disk' st)
    (right : ∀ file ∈ st.staged, disk'.executable file.inode = file.node.isExecutable)
    (linking : ∀ hash, st.place = .linking hash → st.wants = true → exe hash = true →
      ∀ inode, disk'.cas hash = some inode → disk'.executable inode = true)
    : st.Good inputs exe disk' where
  right := right
  below file member := Nat.lt_of_lt_of_le (good.below file member) carries.next
  origin file member := by
    rcases good.origin file member with ⟨agrees, upload, among, hash, inode, placed⟩ | own
    · obtain ⟨upload', among', hash', inode', placed'⟩ := carries.placed upload among placed
      exact .inl ⟨agrees, upload', among', hash'.trans hash, inode'.trans inode, placed'⟩
    · refine .inr (fun upload' among' same => ?_)
      obtain ⟨upload, among, same⟩ := carries.own file member upload' among' same
      exact own upload among same
  marking := good.marking
  linking := linking
  planned := good.planned

variable {upload : Upload} {u inode : Nat} {phase : Phase} {hash : String}

theorem carries_of_same (next : disk.next ≤ disk'.next) (same : disk'.uploads = disk.uploads)
    : disk.Carries disk' st where
  next := next
  placed upload member placed := ⟨upload, same ▸ member, rfl, rfl, placed⟩
  own _ _ upload member inode := ⟨upload, same ▸ member, inode⟩

theorem chmod (good : st.Good inputs exe disk) {executable : Bool}
    (staged : ∀ file ∈ st.staged, file.inode = inode → file.node.isExecutable = executable)
    (linking : ∀ hash, st.place = .linking hash → exe hash = true →
      disk.cas hash = some inode → executable = true)
    : st.Good inputs exe (disk.chmod inode executable) := by
  refine good.carry (carries_of_same (Nat.le_refl _) rfl) ?_ ?_
  · intro file member
    by_cases same : file.inode = inode
    · rw [Disk.chmod_executable, same, Function.update_self, staged file member same]
    · rw [Disk.chmod_executable, Function.update_of_ne same, good.right file member]
  · intro hash place wants is inode' held
    by_cases same : inode' = inode
    · subst same
      rw [Disk.chmod_executable, Function.update_self]
      exact linking hash place is held
    · rw [Disk.chmod_executable, Function.update_of_ne same]
      exact good.linking hash place wants is inode' held

theorem create (good : st.Good inputs exe disk) (sound : disk.Sound exe) (executable : Bool)
    : st.Good inputs exe (disk.create executable) := by
  refine good.carry (carries_of_same (Nat.le_succ _) rfl) ?_ ?_
  · intro file member
    have old : file.inode ≠ disk.next := Nat.ne_of_lt (good.below file member)
    rw [Disk.create_executable, Function.update_of_ne old, good.right file member]
  · intro hash place wants is inode held
    obtain ⟨upload, member, -, rfl, -⟩ := sound.blobs hash inode held
    have old : upload.inode ≠ disk.next := Nat.ne_of_lt (sound.below upload member)
    rw [Disk.create_executable, Function.update_of_ne old]
    exact good.linking hash place wants is _ held

theorem start (good : st.Good inputs exe disk)
    (unstaged : ∀ file ∈ st.staged, file.inode ≠ upload.inode)
    : st.Good inputs exe (disk.upload upload) := by
  refine good.carry ⟨Nat.le_refl _, ?_, ?_⟩ good.right good.linking
  · intro other member placed
    exact ⟨other, List.mem_append_left _ member, rfl, rfl, placed⟩
  · intro file member other among inode
    rcases List.mem_append.mp among with among | among
    · exact ⟨other, among, inode⟩
    · obtain rfl := List.mem_singleton.mp among
      exact absurd inode.symm (unstaged file member)

theorem advance (good : st.Good inputs exe disk) (held : disk.uploads[u]? = some upload)
    (placed : upload.phase.placed = true → phase.placed = true)
    : st.Good inputs exe (disk.advance u upload phase) := by
  refine good.carry ⟨Nat.le_refl _, ?_, ?_⟩ good.right good.linking
  · intro other member there
    obtain ⟨v, shown⟩ := List.getElem?_of_mem member
    by_cases same : u = v
    · subst same
      obtain rfl := Option.some.inj (held.symm.trans shown)
      exact ⟨_, List.mem_of_getElem? (getElem?_set_of_some held), rfl, rfl, placed there⟩
    · have kept : (disk.advance u upload phase).uploads[v]? = some other := by
        rw [Disk.advance, List.getElem?_set_ne same, shown]
      exact ⟨other, List.mem_of_getElem? kept, rfl, rfl, there⟩
  · intro file member other among inode
    rcases Disk.Sound.mem_advance among with rfl | among
    · exact ⟨upload, List.mem_of_getElem? held, inode⟩
    · exact ⟨other, among, inode⟩

theorem setBlob (good : st.Good inputs exe disk) {inode : Option Nat}
    (unlinking : inode ≠ none → exe hash = true → st.place ≠ .linking hash)
    : st.Good inputs exe (disk.setBlob hash inode) := by
  refine good.carry (carries_of_same (Nat.le_refl _) rfl) good.right ?_
  intro hash' place wants is inode' held
  by_cases same : hash' = hash
  · subst same
    rw [Disk.setBlob_cas, Function.update_self] at held
    refine absurd place (unlinking ?_ is)
    rw [held]
    exact Option.some_ne_none _
  · rw [Disk.setBlob_cas, Function.update_of_ne same] at held
    exact good.linking hash' place wants is inode' held

theorem finish (good : st.Good inputs exe disk) {rest : List Item} {file : Staged}
    (todo : st.todo = .file file.path file.node :: rest)
    (right : disk.executable file.inode = file.node.isExecutable)
    (below : file.inode < disk.next) (origin : disk.Origin exe file)
    : (st.finish rest file).Good inputs exe disk where
  right other member := by
    rcases List.mem_append.mp member with member | member
    · exact good.right other member
    · obtain rfl := List.mem_singleton.mp member
      exact right
  below other member := by
    rcases List.mem_append.mp member with member | member
    · exact good.below other member
    · obtain rfl := List.mem_singleton.mp member
      exact below
  origin other member := by
    rcases List.mem_append.mp member with member | member
    · exact good.origin other member
    · obtain rfl := List.mem_singleton.mp member
      exact origin
  marking := nofun
  linking := nofun
  planned out later := by
    have longer : Stages inputs st.todo ((file.path, file.node) :: out) := by
      rw [todo]
      exact .file later
    simpa [Stager.finish] using good.planned _ longer

theorem link_of_upload (good : st.Good inputs exe disk) (sound : disk.Sound exe)
    (member : upload ∈ disk.uploads) {file : Staged} (staged : file ∈ st.staged)
    (same : file.inode = upload.inode)
    : file.node.isExecutable = exe upload.hash ∧ upload.phase.placed = true := by
  rcases good.origin file staged with ⟨agrees, other, among, hash, inode, placed⟩ | own
  · obtain rfl := sound.unique among member (inode.trans same)
    exact ⟨by rw [agrees, hash], placed⟩
  · exact absurd same.symm (own upload member)

variable {st' : Stager}

theorem enter (good : st.Good inputs exe disk)
    (taken : st.step inputs disk .enter = some (disk', st'))
    : disk' = disk ∧ st'.Good inputs exe disk := by
  simp only [Stager.step] at taken
  split at taken
  next path given rest idle todo =>
    obtain ⟨hash, valid, taken⟩ := Option.bind_eq_some_iff.mp taken
    split at taken
    next inode dir stored message =>
      cases taken
      refine ⟨rfl, { good with marking := ?_, linking := ?_, planned := ?_ }⟩
      · rw [idle]
        exact nofun
      · rw [idle]
        exact nofun
      · intro out later
        refine good.planned out ?_
        rw [todo]
        exact .dir valid message later
    next => cases taken
  next => cases taken

theorem symlink (good : st.Good inputs exe disk)
    (taken : st.step inputs disk .symlink = some (disk', st'))
    : disk' = disk ∧ st'.Good inputs exe disk := by
  simp only [Stager.step] at taken
  split at taken
  next path node rest idle todo =>
    cases taken
    refine ⟨rfl, { good with marking := ?_, linking := ?_, planned := ?_ }⟩
    · rw [idle]
      exact nofun
    · rw [idle]
      exact nofun
    · intro out later
      refine good.planned out ?_
      rw [todo]
      exact .symlink later
  next => cases taken

theorem get (good : st.Good inputs exe disk)
    (taken : st.step inputs disk .get = some (disk', st'))
    : disk' = disk ∧ st'.Good inputs exe disk := by
  simp only [Stager.step] at taken
  split at taken
  next path node rest idle todo =>
    obtain ⟨hash, -, taken⟩ := Option.bind_eq_some_iff.mp taken
    obtain ⟨_, same⟩ := Option.ite_none_right_eq_some.mp taken
    cases same
    exact ⟨rfl, { good with marking := nofun, linking := nofun }⟩
  next => cases taken

theorem stat (good : st.Good inputs exe disk)
    (taken : st.step inputs disk .stat = some (disk', st'))
    : disk' = disk ∧ st'.Good inputs exe disk := by
  simp only [Stager.step] at taken
  split at taken
  next hash path node rest opened todo =>
    have wants : st.wants = node.isExecutable := by rw [Stager.wants, todo]
    split at taken
    next executable =>
      obtain ⟨inode, stored, same⟩ := Option.map_eq_some_iff.mp taken
      split at same
      next already =>
        cases same
        refine ⟨rfl, { good with marking := nofun, linking := ?_ }⟩
        rintro _ ⟨⟩ _ _ inode' stored'
        obtain rfl := Option.some.inj (stored.symm.trans stored')
        exact already
      next =>
        cases same
        exact ⟨rfl, { good with marking := fun _ _ => wants.trans executable, linking := nofun }⟩
    next plain =>
      cases taken
      refine ⟨rfl, { good with marking := nofun, linking := ?_ }⟩
      rintro _ ⟨⟩ is
      exact absurd (wants.symm.trans is) plain
  next => cases taken

theorem unlinked (good : st.Good inputs exe disk)
    (taken : st.step inputs disk .unlinked = some (disk', st'))
    : disk' = disk ∧ st'.Good inputs exe disk := by
  simp only [Stager.step] at taken
  split at taken
  next =>
    cases taken
    exact ⟨rfl, { good with marking := nofun, linking := nofun }⟩
  next => cases taken

/-- A link to a blob has the blob's bit, which is the node's. -/
theorem link (good : st.Good inputs exe disk) (sound : disk.Sound exe)
    (allowed : State.Agrees exe st) (taken : st.step inputs disk .link = some (disk', st'))
    : disk' = disk ∧ st'.Good inputs exe disk := by
  simp only [Stager.step] at taken
  split at taken
  next hash path node rest linking todo =>
    obtain ⟨inode, stored, same⟩ := Option.map_eq_some_iff.mp taken
    cases same
    have wants : st.wants = node.isExecutable := by rw [Stager.wants, todo]
    have agrees : node.isExecutable = exe hash := by
      simpa only [State.Agrees, linking, wants] using allowed
    obtain ⟨upload, member, rfl, rfl, placed⟩ := sound.blobs hash inode stored
    refine ⟨rfl, good.finish todo ?_ (sound.below upload member)
      (.inl ⟨agrees, upload, member, rfl, rfl, placed⟩)⟩
    change disk.executable upload.inode = node.isExecutable
    rw [agrees]
    cases is : exe upload.hash with
    | true => exact good.linking _ linking (wants.trans (agrees.trans is)) is _ stored
    | false =>
        refine Bool.eq_false_iff.mpr (fun set => ?_)
        have unlinked : upload.phase ≠ .linked := by
          intro linked
          rw [linked] at placed
          cases placed
        rw [sound.modes upload member unlinked set] at is
        cases is
  next => cases taken

end Stager.Good

namespace State.Sound

variable {hash : String} {label : Label}

theorem startNew (sound : s.Sound inputs exe) (hash : String) (phase : Phase)
    : State.Sound inputs exe
        { s with disk := (s.disk.create false).upload ⟨hash, s.disk.next, phase⟩ } where
  disk := by
    refine (sound.disk.create false).start ?_ (Nat.lt_succ_self _) ?_
    · intro other member
      exact Nat.ne_of_lt (sound.disk.below other member)
    · intro _
      rw [Disk.create_executable, Function.update_self]
  good st member := by
    have good := sound.good st member
    refine (good.create sound.disk false).start ?_
    intro file staged
    exact Nat.ne_of_lt (good.below file staged)

theorem chmodBlob (sound : s.Sound inputs exe) (spares : s.Spares exe hash)
    : State.Sound inputs exe { s with disk := s.disk.chmodBlob hash false } := by
  unfold Disk.chmodBlob
  split
  next inode held =>
    obtain ⟨upload, member, rfl, rfl, -⟩ := sound.disk.blobs hash inode held
    refine ⟨sound.disk.chmod member nofun, fun st among => ?_⟩
    have good := sound.good st among
    refine good.chmod ?_ ?_
    · intro file staged same
      have agrees := (good.link_of_upload sound.disk member staged same).1
      cases is : exe upload.hash with
      | false => rw [agrees, is]
      | true =>
          rw [← same] at held
          exact absurd held (spares.2 is st among file staged)
    · intro hash' place is held'
      obtain rfl := sound.disk.owner held' held
      exact absurd place (spares.1 is st among)
  next => exact sound

theorem stepDisk (sound : s.Sound inputs exe) (allowed : Calm exe s label)
    (taken : State.stepDisk s.disk label = some disk')
    : State.Sound inputs exe { s with disk := disk' } := by
  cases label with
  | begin target root => cases taken
  | stage t action => cases taken
  | create executable =>
      cases taken
      exact ⟨sound.disk.create executable,
        fun st member => (sound.good st member).create sound.disk executable⟩
  | put hash =>
      cases taken
      exact sound.startNew hash _
  | putFile hash source =>
      obtain ⟨_, taken⟩ := Option.ite_none_right_eq_some.mp taken
      cases source with
      | none =>
          cases taken
          exact sound.startNew hash _
      | some inode =>
          obtain ⟨below, same⟩ := Option.ite_none_right_eq_some.mp taken
          cases same
          obtain ⟨unstaged, unused⟩ : s.Unused inode := allowed
          refine ⟨sound.disk.start unused below (fun unlinked => absurd rfl unlinked), ?_⟩
          intro st member
          exact (sound.good st member).start (unstaged st member)
  | chmodLinked u =>
      obtain ⟨upload, held, taken⟩ := Option.bind_eq_some_iff.mp taken
      obtain ⟨linked, same⟩ := Option.ite_none_right_eq_some.mp taken
      cases same
      have member := List.mem_of_getElem? held
      refine ⟨?_, fun st among => ?_⟩
      · have plain : (s.disk.chmod upload.inode false).Sound exe :=
          sound.disk.chmod member nofun
        refine plain.advance held ?_ ?_
        · rw [linked]
          exact nofun
        · intro _
          rw [Disk.chmod_executable, Function.update_self]
      · have good := sound.good st among
        refine Stager.Good.advance (good.chmod ?_ ?_) held ?_
        · intro file staged inode
          have placed := (good.link_of_upload sound.disk member staged inode).2
          rw [linked] at placed
          cases placed
        · intro hash _ _ stored
          obtain ⟨other, among, -, inode, placed⟩ := sound.disk.blobs hash _ stored
          obtain rfl := sound.disk.unique among member inode
          rw [linked] at placed
          cases placed
        · rw [linked]
          exact nofun
  | rename u =>
      obtain ⟨upload, held, taken⟩ := Option.bind_eq_some_iff.mp taken
      split at taken
      next putFile ready =>
        cases taken
        have allowed : s.Unlinking exe upload.hash := allowed upload held
        have placed : (if putFile then Phase.done else Phase.renamed).placed = true := by
          cases putFile <;> rfl
        have unplaced : upload.phase.placed = true →
            (if putFile then Phase.done else Phase.renamed).placed = true := fun _ => placed
        refine ⟨?_, fun st among => ?_⟩
        · have advanced := sound.disk.advance held unplaced (by rw [ready]; exact nofun)
          have member : { upload with phase := if putFile then .done else .renamed }
              ∈ (s.disk.advance u upload (if putFile then .done else .renamed)).uploads :=
            List.mem_of_getElem? (getElem?_set_of_some held)
          have moved := advanced.place member placed
          exact moved
        · have good : st.Good inputs exe (s.disk.setBlob upload.hash (some upload.inode)) :=
            (sound.good st among).setBlob (fun _ is => allowed is st among)
          exact good.advance held unplaced
      next => cases taken
  | chmodRenamed u =>
      obtain ⟨upload, held, taken⟩ := Option.bind_eq_some_iff.mp taken
      obtain ⟨renamed, same⟩ := Option.ite_none_right_eq_some.mp taken
      cases same
      have changed := sound.chmodBlob (allowed upload held)
      have held' : (s.disk.chmodBlob upload.hash false).uploads[u]? = some upload := by
        unfold Disk.chmodBlob
        split <;> exact held
      refine ⟨changed.disk.advance held' (fun _ => rfl) (by rw [renamed]; exact nofun), ?_⟩
      intro st among
      exact (changed.good st among).advance held' (fun _ => rfl)
  | evictChmod hash =>
      cases taken
      exact sound.chmodBlob allowed
  | evictRemove hash =>
      cases taken
      exact ⟨sound.disk.remove hash,
        fun st member => (sound.good st member).setBlob (fun some_ => absurd rfl some_)⟩

/-- The `chmod` of a blob that shall be executable, before its link. -/
theorem stageChmod (sound : s.Sound inputs exe) (member : st ∈ s.stagers)
    (allowed : Agrees exe st) {st' : Stager}
    (taken : st.step inputs s.disk .chmod = some (disk', st'))
    : disk'.Sound exe ∧ st'.Good inputs exe disk'
      ∧ ∀ other ∈ s.stagers, other.Good inputs exe disk' := by
  simp only [Stager.step] at taken
  split at taken
  next hash marking =>
    obtain ⟨inode, stored, same⟩ := Option.map_eq_some_iff.mp taken
    cases same
    have is : exe hash = true := by
      simp only [Agrees, marking] at allowed
      rw [← allowed]
      exact (sound.good st member).marking hash marking
    obtain ⟨upload, among, rfl, rfl, -⟩ := sound.disk.blobs hash inode stored
    have others : ∀ other ∈ s.stagers,
        other.Good inputs exe (s.disk.chmod upload.inode true) := by
      intro other held
      refine (sound.good other held).chmod ?_ (fun _ _ _ _ => rfl)
      intro file staged same
      rw [((sound.good other held).link_of_upload sound.disk among staged same).1, is]
    refine ⟨sound.disk.chmod among (fun _ => is), ?_, others⟩
    refine { others st member with marking := nofun, linking := ?_ }
    rintro _ ⟨⟩ _ _ inode' stored'
    obtain rfl := Option.some.inj (stored.symm.trans stored')
    rw [Disk.chmod_executable, Function.update_self]
  next => cases taken

theorem stageCreate (sound : s.Sound inputs exe) (member : st ∈ s.stagers) {st' : Stager}
    (taken : st.step inputs s.disk .create = some (disk', st'))
    : disk'.Sound exe ∧ st'.Good inputs exe disk'
      ∧ ∀ other ∈ s.stagers, other.Good inputs exe disk' := by
  simp only [Stager.step] at taken
  split at taken
  next hash path node rest copying todo =>
    cases taken
    have created := (sound.good st member).create sound.disk node.isExecutable
    refine ⟨sound.disk.create _, created.finish todo ?_ (Nat.lt_succ_self _) (.inr ?_),
      fun other among => (sound.good other among).create sound.disk _⟩
    · rw [Disk.create_executable, Function.update_self]
    · intro upload among
      exact Nat.ne_of_lt (sound.disk.below upload among)
  next => cases taken

theorem stepStager (sound : s.Sound inputs exe) {action : Action} {t : Nat}
    (allowed : Calm exe s (.stage t action)) (held : s.stagers[t]? = some st) {st' : Stager}
    (taken : st.step inputs s.disk action = some (disk', st'))
    : disk'.Sound exe ∧ st'.Good inputs exe disk'
      ∧ ∀ other ∈ s.stagers, other.Good inputs exe disk' := by
  have member := List.mem_of_getElem? held
  have good := sound.good st member
  have unchanged : disk' = s.disk ∧ st'.Good inputs exe s.disk →
      disk'.Sound exe ∧ st'.Good inputs exe disk'
        ∧ ∀ other ∈ s.stagers, other.Good inputs exe disk' := by
    rintro ⟨rfl, good⟩
    exact ⟨sound.disk, good, sound.good⟩
  cases action with
  | enter => exact unchanged (good.enter taken)
  | symlink => exact unchanged (good.symlink taken)
  | get => exact unchanged (good.get taken)
  | stat => exact unchanged (good.stat taken)
  | chmod => exact sound.stageChmod member (allowed st held) taken
  | link => exact unchanged (good.link sound.disk (allowed st held) taken)
  | unlinked => exact unchanged (good.unlinked taken)
  | create => exact sound.stageCreate member taken
  | overwrite inode => exact allowed.elim
  | fail =>
      cases taken
      exact unchanged ⟨rfl, { good with marking := nofun, linking := nofun }⟩

end State.Sound

theorem sound_inductive (inputs : Inputs) (exe : String → Bool)
    : (State.machine inputs).Inductive (State.Calm exe) (State.Sound inputs exe) where
  start s initial := by
    obtain ⟨stagers, uploads, cas⟩ := initial
    refine ⟨⟨?_, ?_, ?_, ?_⟩, ?_⟩
    · simp [uploads]
    · simp [uploads]
    · simp [cas]
    · simp [uploads]
    · simp [stagers]
  keeps s label s' sound allowed taken := by
    change State.step inputs s label = some s' at taken
    cases label with
    | begin target root =>
        cases taken
        refine ⟨sound.disk, fun st member => ?_⟩
        rcases List.mem_append.mp member with member | member
        · exact sound.good st member
        · obtain rfl := List.mem_singleton.mp member
          exact ⟨nofun, nofun, nofun, nofun, nofun, fun _ all => all⟩
    | stage t action =>
        obtain ⟨st, held, moved⟩ := Option.bind_eq_some_iff.mp taken
        obtain ⟨⟨disk', st'⟩, stepped, rfl⟩ := Option.map_eq_some_iff.mp moved
        obtain ⟨disk, good, others⟩ := sound.stepStager allowed held stepped
        refine ⟨disk, fun other member => ?_⟩
        rcases List.mem_or_eq_of_mem_set member with before | rfl
        · exact others other before
        · exact good
    | create _ | put _ | putFile _ _ | chmodLinked _ | rename _ | chmodRenamed _
    | evictChmod _ | evictRemove _ =>
        simp only [State.step] at taken
        obtain ⟨disk', stepped, rfl⟩ := Option.map_eq_some_iff.mp taken
        exact sound.stepDisk allowed stepped

namespace State

instance (exe : String → Bool) (s : State) (hash : String) : Decidable (s.Unlinking exe hash) :=
  inferInstanceAs (Decidable (_ → _))

instance (exe : String → Bool) (s : State) (hash : String) : Decidable (s.Spares exe hash) :=
  inferInstanceAs (Decidable (_ ∧ (_ → _)))

instance (s : State) (inode : Nat) : Decidable (s.Unused inode) :=
  inferInstanceAs (Decidable (_ ∧ _))

instance (exe : String → Bool) (st : Stager) : Decidable (Agrees exe st) := by
  unfold Agrees
  split <;> infer_instance

instance (exe : String → Bool) (s : State) (label : Label) : Decidable (Calm exe s label) := by
  unfold Calm
  split <;> infer_instance

def empty : State where
  disk := { executable := fun _ => false, next := 0, cas := fun _ => none, uploads := [] }
  stagers := []

def trees (s : State) : List (Path × Digest × List (Path × FileNode)) :=
  (s.stagers.filter Stager.finished).map (fun st =>
    (st.target, st.root, st.tree s.disk.executable))

end State

def digestOf (digit : Char) : Digest where
  hash := String.ofList (List.replicate 64 digit)
  sizeBytes := 1

def fileNode (name : String) (isExecutable : Bool) : FileNode where
  name := name
  digest := some (digestOf 'c')
  isExecutable := isExecutable

end GoREgo.Worker.Modes
