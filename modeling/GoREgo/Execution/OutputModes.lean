import GoREgo.Execution.Described

/-! The executable bits that `uploadOutputs` records over a `LocalStore`. `PutFile` links a file
into the store and makes the linked inode read-only, so that a file that is looked at again, under
the same or another name, has lost its executable bits.
-/

namespace GoREgo.Worker

open Lib

namespace Listing

/-- `os.Lstat`: the entry at a path, which may be a link. -/
def lstat (root : Listing) (path : Path) : Option Node :=
  match path.getLast?, Walk.follow root.entryAt path.dropLast with
  | some name, .found above => root.nodeAt (above ++ [name])
  | _, _ => none

/-- The files of a directory with their executable bits, without those of its subdirectories. -/
def modes : Listing → List (String × Bool)
  | .nil => []
  | .file name held rest => (name.text, held.executable) :: rest.modes
  | .symlink _ _ rest => rest.modes
  | .dir _ _ rest => rest.modes

/-- The directories below a directory, each after those below it. -/
def subdirectories : Listing → List Listing
  | .nil => []
  | .file _ _ rest => rest.subdirectories
  | .symlink _ _ rest => rest.subdirectories
  | .dir _ sub rest => sub.subdirectories ++ sub :: rest.subdirectories

end Listing

def Directory.modes (dir : Directory) : List (String × Bool) :=
  dir.files.map (fun node => (node.name, node.isExecutable))

/-- The `FileNode`s of a tree have the names and the executable bits of the files below a
directory.
-/
def Tree.Keeps (tree : Tree) (listing : Listing) : Prop :=
  tree.root.modes = listing.modes
  ∧ tree.children.map Directory.modes = listing.subdirectories.map Listing.modes

/-- The entries of a result and the nodes of its trees have the executable bits of the files. -/
structure Outputs.Recorded (root : Listing) (fullPath : String → Path) (out : Outputs)
    : Prop where
  files : ∀ output ∈ out.result.outputFiles, ∀ place file,
    root.locate (fullPath output.path) = .ok (place, .file file) →
    output.isExecutable = file.executable
  trees : ∀ entry ∈ out.trees, ∀ place listing,
    root.locate (fullPath entry.1) = .ok (place, .dir listing) → entry.2.Keeps listing

/-- The output directories of a result have the digests of the trees. -/
def Outputs.Named (encoding : Encoding) (out : Outputs) : Prop :=
  List.Forall₂ (fun output entry => output.path = entry.1
      ∧ ∃ data, encoding.marshalTree entry.2 = .ok data
        ∧ output.treeDigest = encoding.newFromBlob data)
    out.result.outputDirectories out.trees

namespace Outlet

variable {σ : Type} (w : Outlet σ) {out : Outputs}

end Outlet

/-- An upload: a message or a stream under its digest, or the file that a path leads to. -/
inductive Upload
  | blob (digest : Digest)
  | file (path place : Path) (file : File)
deriving DecidableEq

namespace Encoding

variable (encoding : Encoding)

def uploadDigest : Upload → Digest
  | .blob digest => digest
  | .file _ _ file => encoding.newFromBlob file.data

def messageUpload (message : Except GoError Bytes) : List Upload :=
  match message with
  | .ok data => [.blob (encoding.newFromBlob data)]
  | .error _ => []

/-- The message of a directory with the executable bits that the command left. -/
def message : Listing → Directory
  | .nil => .empty
  | .file name file rest =>
      { message rest with files := fileNode encoding name file :: (message rest).files }
  | .symlink name target rest =>
      { message rest with symlinks := symlinkNode name target :: (message rest).symlinks }
  | .dir name sub rest =>
      let node : DirectoryNode :=
        { name := name.text
          digest := (encoding.marshalDirectory (message sub)).toOption.map encoding.newFromBlob }
      { message rest with directories := node :: (message rest).directories }

def tree (listing : Listing) : Tree where
  root := encoding.message listing
  children := listing.subdirectories.map encoding.message

/-- The uploads for the entries of a directory: files, and the messages of subdirectories. -/
def entryUploads (dirPath place : Path) : Listing → List Upload
  | .nil => []
  | .file name file rest =>
      .file (dirPath ++ [name.text]) (place ++ [name.text]) file
        :: entryUploads dirPath place rest
  | .symlink _ _ rest => entryUploads dirPath place rest
  | .dir name sub rest =>
      entryUploads (dirPath ++ [name.text]) (place ++ [name.text]) sub
        ++ (encoding.messageUpload (encoding.marshalDirectory (encoding.message sub))
          ++ entryUploads dirPath place rest)

def treeUploads (dirPath place : Path) (listing : Listing) : List Upload :=
  encoding.entryUploads dirPath place listing
    ++ (encoding.messageUpload (encoding.marshalDirectory (encoding.message listing))
      ++ encoding.messageUpload (encoding.marshalTree (encoding.tree listing)))

def streamUploads (data : Bytes) : List Upload :=
  if data.length > 0 then [.blob (encoding.newFromBlob data)] else []

end Encoding

namespace Uploader

variable (w : Uploader) (workDir : Path) (command : Command)

/-- What is uploaded for an output: the file, or the tree of the directory. -/
def outputUploads (outputPath : String) : List Upload :=
  let fullPath := Outlet.outputPlace workDir command outputPath
  match w.files.locate fullPath with
  | .ok (place, .file file) => [.file fullPath place file]
  | .ok (place, .dir listing) => w.treeUploads fullPath place listing
  | _ => []

/-- The uploads for a command in their order. -/
def uploads (execResult : ExecResult) : List Upload :=
  w.streamUploads execResult.stdout ++ (w.streamUploads execResult.stderr
    ++ (command.outputFiles ++ command.outputDirectories ++ command.outputPaths).flatMap
      (w.outputUploads workDir command))

end Uploader

/-- The local store and the modes: the blobs that the store has, the inodes that were made
read-only since the command ended, and the number of uploads.
-/
structure Shelf where
  stored : List Digest
  readOnly : List Nat
  attempts : Nat
deriving DecidableEq

/-- An uploader to a `LocalStore`: the inode of each place, the uploads for which `os.Link`
works, and the inode whose mode the `os.Chmod` of a linked symlink changes, which the kernel
looks up from the directory of the blob. Names of one inode hold one file.
-/
structure LocalUploader extends Uploader where
  inode : Path → Nat
  shared : ∀ place other held held', files.nodeAt place = some (.file held) →
    files.nodeAt other = some (.file held') → inode place = inode other → held = held'
  links : Nat → Bool
  chmodLink : Digest → LinkTarget → Except Errno (Option Nat)

abbrev ShelfM := EStateM GoError Shelf

namespace LocalUploader

variable (w : LocalUploader)

/-- The inode that becomes read-only when a path is linked into the store. -/
def reached (path place : Path) (file : File) : Except Errno (Option Nat) :=
  match w.files.lstat path with
  | some (.symlink target) => w.chmodLink (w.newFromBlob file.data) target
  | _ => .ok (some (w.inode place))

/-- `LocalStore.Put`, which always writes a new file. -/
def put (digest : Digest) (_ : Bytes) : ShelfM Unit := fun s =>
  match w.fails s.attempts with
  | some err => .error err { s with attempts := s.attempts + 1 }
  | none => .ok () { s with stored := digest :: s.stored, attempts := s.attempts + 1 }

/-- `LocalStore.PutFile`: nothing is done for a blob that the store has, a path is linked where
that works, and copied otherwise. The copy leaves the mode of its source alone.
-/
def putFile (path place : Path) (file : File) : ShelfM Unit := fun s =>
  let tried := { s with attempts := s.attempts + 1 }
  let stored := { tried with stored := w.newFromBlob file.data :: s.stored }
  if w.newFromBlob file.data ∈ s.stored then
    .ok () tried
  else
    match w.fails s.attempts with
    | some err => .error err tried
    | none =>
        if w.links s.attempts then
          match w.reached path place file with
          | .error errno =>
              .error (.wrap "failed to set read-only permissions on hardlinked file"
                (.plain errno.text)) tried
          | .ok none => .ok () stored
          | .ok (some inode) => .ok () { stored with readOnly := inode :: s.readOnly }
        else
          .ok () stored

variable (initial : List Digest)

/-- The inode that an upload makes read-only: the first upload of contents that the store does
not have, when it is linked.
-/
def alters (earlier : List Upload) : Upload → Option Nat
  | .blob _ => none
  | .file path place file =>
      if w.newFromBlob file.data ∉ initial ∧ w.newFromBlob file.data ∉ earlier.map w.uploadDigest
          ∧ w.links earlier.length = true then
        (w.reached path place file).toOption.join
      else
        none

def Altered (uploads : List Upload) (inode : Nat) : Prop :=
  ∃ before upload after, uploads = before ++ upload :: after
    ∧ w.alters initial before upload = some inode

/-- No executable file is uploaded after an upload that has made its inode read-only. -/
def Unstripped (uploads : List Upload) : Prop :=
  ∀ before path place file after, uploads = before ++ .file path place file :: after →
    file.executable = true → ¬ w.Altered initial before (w.inode place)

variable {w initial} {done more : List Upload} {upload : Upload} {s : Shelf}

theorem snoc_eq_iff {before after : List Upload} {other : Upload}
    : done ++ [upload] = before ++ other :: after
      ↔ (done = before ∧ upload = other ∧ after = [])
        ∨ ∃ rest, after = rest ++ [upload] ∧ done = before ++ other :: rest := by
  rcases List.eq_nil_or_concat after with rfl | ⟨rest, last, rfl⟩
  · simp
  · rw [List.concat_eq_append, ← List.cons_append, ← List.append_assoc,
      List.append_singleton_inj]
    constructor
    · rintro ⟨rfl, rfl⟩
      exact Or.inr ⟨rest, rfl, rfl⟩
    · rintro (⟨-, -, empty⟩ | ⟨rest', same, rfl⟩)
      · simp at empty
      · obtain ⟨rfl, rfl⟩ := List.append_singleton_inj.mp same
        exact ⟨rfl, rfl⟩

theorem altered_snoc {inode : Nat}
    : w.Altered initial (done ++ [upload]) inode
      ↔ w.Altered initial done inode ∨ w.alters initial done upload = some inode := by
  simp only [Altered, snoc_eq_iff]
  constructor
  · rintro ⟨before, other, after, ⟨rfl, rfl, rfl⟩ | ⟨rest, rfl, split⟩, altered⟩
    · exact Or.inr altered
    · exact Or.inl ⟨before, other, rest, split, altered⟩
  · rintro (⟨before, other, rest, split, altered⟩ | altered)
    · exact ⟨before, other, rest ++ [upload], Or.inr ⟨rest, rfl, split⟩, altered⟩
    · exact ⟨done, upload, [], Or.inl ⟨rfl, rfl, rfl⟩, altered⟩

theorem unstripped_blob {digest : Digest}
    : w.Unstripped initial (done ++ [.blob digest]) ↔ w.Unstripped initial done := by
  simp only [Unstripped, snoc_eq_iff]
  constructor
  · intro unstripped before path place file rest split
    exact unstripped before path place file _ (Or.inr ⟨rest, rfl, split⟩)
  · rintro earlier before path place file after (⟨-, same, -⟩ | ⟨rest, -, split⟩)
    · cases same
    · exact earlier before path place file rest split

theorem Unstripped.message (unstripped : w.Unstripped initial done)
    (marshal : Except GoError Bytes)
    : w.Unstripped initial (done ++ w.messageUpload marshal) := by
  cases marshal with
  | ok data => exact unstripped_blob.mpr unstripped
  | error err => simpa [Encoding.messageUpload] using unstripped

theorem Unstripped.of_append (unstripped : w.Unstripped initial (done ++ more))
    : w.Unstripped initial done := by
  intro before path place file after split
  exact unstripped before path place file (after ++ more) (by simp [split])

/-- The store after some uploads: it has their blobs, and the inodes that they altered are
read-only.
-/
structure At (w : LocalUploader) (initial : List Digest) (done : List Upload) (s : Shelf)
    : Prop where
  attempts : s.attempts = done.length
  stored : ∀ digest, digest ∈ s.stored ↔ digest ∈ initial ∨ digest ∈ done.map w.uploadDigest
  readOnly : ∀ inode, inode ∈ s.readOnly ↔ w.Altered initial done inode

theorem At.snoc (at_ : w.At initial done s) {s' : Shelf} (attempts : s'.attempts = s.attempts + 1)
    (stored : ∀ digest, digest ∈ s'.stored ↔ digest ∈ s.stored ∨ digest = w.uploadDigest upload)
    (readOnly : ∀ inode, inode ∈ s'.readOnly
      ↔ inode ∈ s.readOnly ∨ w.alters initial done upload = some inode)
    : w.At initial (done ++ [upload]) s' where
  attempts := by simp [attempts, at_.attempts]
  stored digest := by simp [stored, at_.stored, or_assoc]
  readOnly inode := by rw [readOnly, at_.readOnly, altered_snoc]

/-- The entries of a directory have been built: `dir` and `children` were there before. -/
structure Shaped (dir : Directory) (children : List Directory) (listing : Listing)
    (built : Directory × List Directory) : Prop where
  files : ∃ nodes, built.1.modes = dir.modes ++ nodes ∧ nodes.length = listing.modes.length
  children : ∃ kids, built.2.map Directory.modes = children.map Directory.modes ++ kids
    ∧ kids.length = listing.subdirectories.length

/-- Where a run stands after some uploads: everything so far is exact and no file was stripped, or
some executable bit is lost and one was.
-/
def Told (w : LocalUploader) (initial : List Digest) (uploads : List Upload) (exact_ lost : Prop)
    (s : Shelf)
    : Prop :=
  (exact_ ∧ w.At initial uploads s ∧ w.Unstripped initial uploads)
  ∨ (lost ∧ ¬ w.Unstripped initial uploads)

section Outputs

variable {workDir : Path} {command : Command} {out : Outputs}

/-- The outputs so far have the bits that the command left, or one is lost. -/
abbrev OutputsTold (w : LocalUploader) (initial : List Digest) (workDir : Path)
    (command : Command) (done : List Upload) (out : Outputs) (s : Shelf)
    : Prop :=
  w.Told initial done (out.Recorded w.files (Outlet.outputPlace workDir command))
    (¬ out.Recorded w.files (Outlet.outputPlace workDir command)) s

/-- A program for an output keeps to the uploads of that output. -/
abbrev Tells (w : LocalUploader) (initial : List Digest) (workDir : Path) (command : Command)
    (outputPath : String) (done : List Upload) (program : ShelfM Outputs) (s : Shelf)
    : Prop :=
  Ends program (fun out s' => w.OutputsTold initial workDir command
    (done ++ w.outputUploads workDir command outputPath) out s') (fun _ _ => True) s

theorem Told.lost {uploads : List Upload} {exact_ lost lost' : Prop} {s' : Shelf}
    (told : lost ∧ ¬ w.Unstripped initial uploads) (still : lost → lost')
    : w.Told initial (uploads ++ more) exact_ lost' s' :=
  .inr ⟨still told.1, fun whole => told.2 whole.of_append⟩

end Outputs

end LocalUploader

namespace LocalUploader

end LocalUploader

end GoREgo.Worker
