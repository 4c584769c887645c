import GoREgo.Execution.FileTree
import GoREgo.Lib.Volume

/-! Staging the inputs of an action: `stageInputs` and the recursion through the `Directory`
messages of the CAS. Files are linked from the CAS where the store is local, and copied
otherwise.
-/

namespace GoREgo.Worker

open Lib

/-- The worker's disk, and the inode of each blob of the store. -/
structure Host where
  volume : Volume File
  blobs : Digest → Option Nat

/-- The disk after the `os.Chmod` of a blob that shall be executable, which sets the executable
bits of everybody.
-/
def Host.addExecutable (host : Host) (inode : Nat) (executable : Bool) : Host :=
  { host with
    volume := host.volume.modify inode
      (fun file => { file with executable := file.executable || executable }) }

/-- The worker's side of staging: how messages and digests are formed, whether the store is a
`LocalBlobStore`, whether the build root takes hard links from the store, and the store's error
for a blob that it does not have.
-/
structure Stager extends Encoding where
  localBlobs : Bool
  linkable : Bool
  missing : Digest → GoError

/-- Why a call does not return normally: an error, or a panic, which ends the process. -/
inductive Stop
  | failed (err : GoError)
  | panicked (panic : Panic)
deriving DecidableEq

def Stop.map (f : GoError → GoError) : Stop → Stop
  | .failed err => .failed (f err)
  | .panicked panic => .panicked panic

def Stop.wrap (text : String) : Stop → Stop :=
  Stop.map (.wrap text)

abbrev StageM := EStateM Stop Host

namespace Stager

variable (w : Stager)

def onVolume {α : Type} (calls : Volume.SysM File α) : StageM α := fun host =>
  match calls host.volume with
  | .ok value volume => .ok value { host with volume := volume }
  | .error err volume => .error (.failed (.plain err.text)) { host with volume := volume }

def checked {α : Type} (result : Except GoError α) : StageM α :=
  match result with
  | .ok value => pure value
  | .error err => throw (.failed err)

def newFromProto (digest : Option Digest) : StageM Digest :=
  match w.sdk.newFromProto digest with
  | .ok result => checked result
  | .error panic => throw (.panicked panic)

/-- `Get`: the file of a blob, open for reading. -/
def get (digest : Digest) : StageM Nat := fun host =>
  match host.blobs digest with
  | some inode => .ok inode host
  | none => .error (.failed (w.missing digest)) host

def readAll (inode : Nat) : StageM Bytes := fun host =>
  .ok (host.volume.files inode).data host

def fetchDirectory (digest : Digest) : StageM Directory := do
  let inode ← w.get digest
  let data ← readAll inode
  checked (w.unmarshalDirectory data)

/-- The message that a blob holds. -/
def directoryAt (host : Host) (digest : Digest) : Option Directory :=
  match host.blobs digest with
  | none => none
  | some inode => (w.unmarshalDirectory (host.volume.files inode).data).toOption

/-- `os.Link` from the CAS, with an error that is only logged. -/
def tryLink (inode : Nat) (targetPath : Path) : StageM Bool := fun host =>
  if w.linkable then
    match Volume.link inode targetPath host.volume with
    | .ok _ volume => .ok true { host with volume := volume }
    | .error _ volume => .ok false { host with volume := volume }
  else
    .ok false host

/-- The fallback of `stageFile`: the target is opened and truncated before the blob is read. -/
def copyFile (inode : Nat) (targetPath : Path) (executable : Bool) : StageM Unit := do
  let target ← onVolume (Volume.openTrunc targetPath { data := [], executable := executable }
    (fun file => { file with data := [] }))
  let data ← readAll inode
  fun host =>
    .ok () { host with
      volume := host.volume.modify target (fun file => { file with data := data }) }

/-- `stageFile` from a `LocalBlobStore`. A blob that shall be executable becomes so in the
CAS.
-/
def linkFile (inode : Nat) (targetPath : Path) (executable : Bool) : StageM Unit := do
  modify (fun host => host.addExecutable inode executable)
  let linked ← w.tryLink inode targetPath
  if linked then pure () else copyFile inode targetPath executable

def stageFile (targetPath : Path) (digest : Digest) (executable : Bool) : StageM Unit := do
  let inode ← w.get digest
  if w.localBlobs then
    w.linkFile inode targetPath executable
  else
    copyFile inode targetPath executable

def stageFileNode (targetDir : Path) (file : FileNode) : StageM Unit := do
  let fileDigest ← w.newFromProto file.digest
  (w.stageFile (Path.join targetDir file.name) fileDigest file.isExecutable).adaptExcept
    (.wrap ("failed to stage file " ++ file.name))

def stageSymlink (targetDir : Path) (symlink : SymlinkNode) : StageM Unit :=
  (onVolume (Volume.symlink symlink.target (Path.join targetDir symlink.name))).adaptExcept
    (.wrap ("failed to create symlink " ++ symlink.name))

/-- What `stageDirectory` does before it goes into the subdirectories. -/
def openDirectory (targetDir : Path) (dirDigest : Digest) : StageM Directory := do
  onVolume (Volume.mkdirAll targetDir)
  let dir ← w.fetchDirectory dirDigest
  forM dir.files (w.stageFileNode targetDir)
  forM dir.symlinks (stageSymlink targetDir)
  pure dir

/-- One turn of the loop over the subdirectories, with the recursive call as a parameter. -/
def stageSubdirectory (deeper : Path → Digest → StageM Unit) (targetDir : Path)
    (subdir : DirectoryNode)
    : StageM Unit := do
  let subdirDigest ← w.newFromProto subdir.digest
  deeper (Path.join targetDir subdir.name) subdirDigest

/-- `stageDirectory`, with a bound on the depth of the recursion. -/
def stageDirectory : Nat → Path → Digest → StageM Unit
  | 0, _, _ => throw (.failed (.plain "goroutine stack exceeds limit"))
  | fuel + 1, targetDir, dirDigest => do
      let dir ← w.openDirectory targetDir dirDigest
      forM dir.directories (w.stageSubdirectory (stageDirectory fuel) targetDir)

end Stager

end GoREgo.Worker
