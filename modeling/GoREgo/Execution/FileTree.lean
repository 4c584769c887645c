import GoREgo.Lib.Paths
import GoREgo.Server.Requests

/-! File trees as the worker finds them on disk, the `Directory` and `Tree` messages that stand
for them in the CAS, and the digests of their contents.
-/

namespace GoREgo.Worker

open Lib

/-- A regular file: what it holds, and whether one of its executable bits is set. -/
structure File where
  data : Bytes
  executable : Bool
deriving DecidableEq, Repr

structure FileName where
  text : String
  normal : Path.Normal text
deriving DecidableEq

/-- The target of a symbolic link, which is never empty. -/
structure LinkTarget where
  text : String
  nonempty : text ≠ ""
deriving DecidableEq

/-- The entries of a directory, in the order in which `os.ReadDir` returns them. -/
inductive Listing
  | nil
  | file (name : FileName) (file : File) (rest : Listing)
  | symlink (name : FileName) (target : LinkTarget) (rest : Listing)
  | dir (name : FileName) (sub rest : Listing)
deriving DecidableEq

inductive Node
  | file (file : File)
  | symlink (target : LinkTarget)
  | dir (listing : Listing)
deriving DecidableEq

namespace Listing

def find (name : String) : Listing → Option Node
  | .nil => none
  | .file other held rest => if other.text = name then some (.file held) else rest.find name
  | .symlink other target rest =>
      if other.text = name then some (.symlink target) else rest.find name
  | .dir other sub rest => if other.text = name then some (.dir sub) else rest.find name

def nodeAt : Listing → Path → Option Node
  | listing, [] => some (.dir listing)
  | listing, name :: rest =>
      match listing.find name with
      | some (.dir sub) => sub.nodeAt rest
      | found => if rest = [] then found else none

def entryAt (listing : Listing) (path : Path) : Option (Entry File) :=
  match listing.nodeAt path with
  | some (.file held) => some (.file held)
  | some (.symlink target) => some (.symlink target.text)
  | some (.dir _) => some .dir
  | none => none

/-- `os.Stat`: the entry that a path leads to through all links, and its place. -/
def locate (root : Listing) (path : Path) : Except Errno (Path × Node) :=
  match Walk.follow root.entryAt path with
  | .found place =>
      match root.nodeAt place with
      | some node => .ok (place, node)
      | none => .error .notExist
  | .missing _ _ => .error .notExist
  | .link _ _ _ => .error .loop
  | .failed errno => .error errno

def stat (root : Listing) (path : Path) : Except Errno Node :=
  (root.locate path).map Prod.snd

theorem locate_of_stat {root : Listing} {path : Path} {node : Node}
    (found : root.stat path = .ok node)
    : ∃ place, root.locate path = .ok (place, node) := by
  unfold stat at found
  cases located : root.locate path with
  | error errno =>
      rw [located] at found
      cases found
  | ok pair =>
      rw [located] at found
      cases found
      exact ⟨pair.1, rfl⟩

end Listing

/-- `Mode()&0111 != 0`. A directory can be searched. -/
def Node.executable : Node → Bool
  | .file held => held.executable
  | .symlink _ => true
  | .dir _ => true

structure FileNode where
  name : String
  digest : Option Digest
  isExecutable : Bool
deriving DecidableEq, Repr

structure SymlinkNode where
  name : String
  target : String
deriving DecidableEq, Repr

structure DirectoryNode where
  name : String
  digest : Option Digest
deriving DecidableEq, Repr

structure Directory where
  files : List FileNode
  directories : List DirectoryNode
  symlinks : List SymlinkNode
deriving DecidableEq, Repr

def Directory.empty : Directory where
  files := []
  directories := []
  symlinks := []

/-- Every file and every directory has a digest. -/
def Directory.HasDigests (dir : Directory) : Prop :=
  (∀ file ∈ dir.files, file.digest.isSome = true)
    ∧ ∀ subdir ∈ dir.directories, subdir.digest.isSome = true

structure Tree where
  root : Directory
  children : List Directory
deriving DecidableEq, Repr

/-- The fields of a `Command` message that the worker reads. -/
structure Command where
  arguments : List String
  workingDirectory : String
  outputFiles : List String
  outputDirectories : List String
  outputPaths : List String
deriving DecidableEq, Repr

/-- The wire format of the messages, which can refuse a message or a text, the hash, which has the
form that digests are checked for, and the SDK with that check.
-/
structure Encoding where
  marshalDirectory : Directory → Except GoError Bytes
  unmarshalDirectory : Bytes → Except GoError Directory
  marshalTree : Tree → Except GoError Bytes
  hash : Bytes → String
  canonical : ∀ data, Server.canonicalHash (hash data).toList = true
  sdk : Server.Sdk

namespace Encoding

variable (encoding : Encoding)

/-- `digest.NewFromBlob`. -/
def newFromBlob (data : Bytes) : Digest where
  hash := encoding.hash data
  sizeBytes := data.length

theorem newFromProto_newFromBlob (data : Bytes)
    : encoding.sdk.newFromProto (some (encoding.newFromBlob data))
      = .ok (.ok (encoding.newFromBlob data)) :=
  encoding.sdk.valid _ ⟨encoding.canonical data, Int.natCast_nonneg _⟩

end Encoding

end GoREgo.Worker
