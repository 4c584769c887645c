import GoREgo.Execution.FileTree
import GoREgo.Lib.Program

/-! Uploading the outputs of a command: `uploadOutputs`, and under it the recursion that turns a
directory into `Directory` messages and collects them in a `Tree`. Whatever a returned result
names has been uploaded.
-/

namespace GoREgo.Worker

open Lib

/-- The worker's side of an upload: how messages and digests are formed, whether the store is a
`LocalBlobStore`, the uploads that fail by their number, and the files on disk.
-/
structure Uploader extends Encoding where
  localBlobs : Bool
  fails : Nat → Option GoError
  files : Listing

/-- An uploader with a blob store and the state that it keeps: `Put`; `PutFile` of a path, with
the place and the file that it leads to; and the executable bit of a file as `os.Stat` reports it.
-/
structure Outlet (σ : Type) extends Uploader where
  put : Digest → Bytes → EStateM GoError σ Unit
  putFile : Path → Path → File → EStateM GoError σ Unit
  executable : Path → File → σ → Bool

structure ExecResult where
  exitCode : Int
  stdout : Bytes
  stderr : Bytes
deriving DecidableEq, Repr

/-- The result so far, and with it the trees whose digests its output directories have. -/
structure Outputs where
  result : ActionResult
  trees : List (String × Tree)
deriving DecidableEq

namespace Outlet

variable {σ : Type} (w : Outlet σ)

def marshalled (result : Except GoError Bytes) : EStateM GoError σ Bytes :=
  match result with
  | .ok data => pure data
  | .error err => throw err

def uploadBlob (data : Bytes) : EStateM GoError σ Digest := do
  w.put (w.newFromBlob data) data
  pure (w.newFromBlob data)

def readError (path : Path) (errno : Errno) : GoError :=
  .wrap ("failed to compute digest for " ++ path.text)
    (.plain ("read " ++ path.text ++ ": " ++ errno.text))

/-- `uploadFile` of a regular file. A `LocalBlobStore` takes the path, another store the
contents.
-/
def uploadContent (path place : Path) (file : File) : EStateM GoError σ Digest := do
  (if w.localBlobs then w.putFile path place file
    else w.put (w.newFromBlob file.data) file.data).adaptExcept
    (.wrap (if w.localBlobs then "failed to put file " ++ path.text else "failed to put blob"))
  pure (w.newFromBlob file.data)

def uploadFile (path : Path) : EStateM GoError σ Digest :=
  match w.files.locate path with
  | .ok (place, .file file) => w.uploadContent path place file
  | .ok (_, .dir _) => throw (readError path .isDir)
  | .ok (_, .symlink _) => throw (readError path .loop)
  | .error errno => throw (readError path errno)

/-- `Mode()&0111 != 0` of an entry as it is now. A directory can be searched. -/
def mode (place : Path) (info : Node) : EStateM GoError σ Bool := fun s =>
  match info with
  | .file file => .ok (w.executable place file s) s
  | .symlink _ => .ok true s
  | .dir _ => .ok true s

/-- The loop of `buildDirectoryProto` over the entries of the directory at `place`, with the
message and the children of the tree so far. A subdirectory is built and uploaded before it is
named. An entry is no link to somewhere else, so its path leads to what the listing holds.
-/
def buildEntries (dirPath place : Path)
    : Listing → Directory → List Directory → EStateM GoError σ (Directory × List Directory)
  | .nil, dir, children => pure (dir, children)
  | .file name file rest, dir, children => do
      let isExecutable ← w.mode (place ++ [name.text]) (.file file)
      let digest ← w.uploadContent (dirPath ++ [name.text]) (place ++ [name.text]) file
      let node : FileNode := { name := name.text, digest := some digest, isExecutable }
      buildEntries dirPath place rest { dir with files := dir.files ++ [node] } children
  | .symlink name target rest, dir, children =>
      let node : SymlinkNode := { name := name.text, target := target.text }
      buildEntries dirPath place rest { dir with symlinks := dir.symlinks ++ [node] } children
  | .dir name sub rest, dir, children => do
      let built ← buildEntries (dirPath ++ [name.text]) (place ++ [name.text]) sub .empty children
      let subdirData ← marshalled (w.marshalDirectory built.1)
      let digest ← w.uploadBlob subdirData
      let node : DirectoryNode := { name := name.text, digest := some digest }
      buildEntries dirPath place rest { dir with directories := dir.directories ++ [node] }
        (built.2 ++ [built.1])

def buildDirectoryProto (dirPath : Path) (children : List Directory)
    : EStateM GoError σ (Directory × List Directory) :=
  match w.files.locate dirPath with
  | .ok (place, .dir entries) => w.buildEntries dirPath place entries .empty children
  | .ok _ => throw (.plain ("readdirent " ++ dirPath.text ++ ": " ++ Errno.notDir.text))
  | .error errno => throw (.plain ("open " ++ dirPath.text ++ ": " ++ errno.text))

def buildTree (dirPath : Path) : EStateM GoError σ (Tree × Digest) := do
  let built ← w.buildDirectoryProto dirPath []
  let rootData ← marshalled (w.marshalDirectory built.1)
  let rootDigest ← w.uploadBlob rootData
  pure ({ root := built.1, children := built.2 }, rootDigest)

def uploadStream (name : String) (data : Bytes) : EStateM GoError σ (Option Digest) :=
  if data.length > 0 then do
    let digest ← (w.uploadBlob data).adaptExcept (.wrap ("failed to upload " ++ name))
    pure (some digest)
  else
    pure none

def addFile (fullPath : Path) (outputPath : String) (place : Path) (info : Node) (out : Outputs)
    : EStateM GoError σ Outputs := do
  let isExecutable ← w.mode place info
  let digest ← (w.uploadFile fullPath).adaptExcept
    (.wrap ("failed to upload output " ++ outputPath))
  let output : OutputFile := { path := outputPath, digest, isExecutable }
  pure { out with
    result := { out.result with outputFiles := out.result.outputFiles ++ [output] } }

def addDirectory (fullPath : Path) (outputPath : String) (out : Outputs)
    : EStateM GoError σ Outputs := do
  let built ← (w.buildTree fullPath).adaptExcept
    (.wrap ("failed to build tree for " ++ outputPath))
  let treeData ← marshalled (w.marshalTree built.1)
  let treeDigest ← (w.uploadBlob treeData).adaptExcept
    (.wrap ("failed to upload tree for " ++ outputPath))
  let output : OutputDirectory :=
    { path := outputPath, treeDigest := treeDigest, rootDirectoryDigest := built.2 }
  pure
    { result := { out.result with outputDirectories := out.result.outputDirectories ++ [output] }
      trees := out.trees ++ [(outputPath, built.1)] }

def statError (fullPath : Path) (outputPath : String) (errno : Errno) : GoError :=
  .wrap ("failed to stat output " ++ outputPath)
    (.plain ("stat " ++ fullPath.text ++ ": " ++ errno.text))

variable (workDir : Path) (command : Command)

def outputPlace (outputPath : String) : Path :=
  Path.join (Path.join workDir command.workingDirectory) outputPath

def uploadOutputFile (out : Outputs) (outputPath : String) : EStateM GoError σ Outputs :=
  let fullPath := outputPlace workDir command outputPath
  match w.files.locate fullPath with
  | .error .notExist => pure out
  | .error errno => throw (statError fullPath outputPath errno)
  | .ok (place, info) => w.addFile fullPath outputPath place info out

/-- One turn of the loop over `OutputDirectories`. Only a path that does not exist is left
out here; any other error of `os.Stat` is left to `buildTree`.
-/
def uploadOutputDirectory (out : Outputs) (outputPath : String) : EStateM GoError σ Outputs :=
  let fullPath := outputPlace workDir command outputPath
  match w.files.locate fullPath with
  | .error .notExist => pure out
  | _ => w.addDirectory fullPath outputPath out

def uploadOutputPath (out : Outputs) (outputPath : String) : EStateM GoError σ Outputs :=
  let fullPath := outputPlace workDir command outputPath
  match w.files.locate fullPath with
  | .error .notExist => pure out
  | .error errno => throw (statError fullPath outputPath errno)
  | .ok (_, .dir _) => w.addDirectory fullPath outputPath out
  | .ok (place, info) => w.addFile fullPath outputPath place info out

def buildOutputs (execResult : ExecResult) : EStateM GoError σ Outputs := do
  let stdoutDigest ← w.uploadStream "stdout" execResult.stdout
  let stderrDigest ← w.uploadStream "stderr" execResult.stderr
  let result : ActionResult :=
    { exitCode := execResult.exitCode.bmod (2 ^ 32)
      stdoutDigest := stdoutDigest
      stderrDigest := stderrDigest
      outputFiles := []
      outputDirectories := [] }
  let out ← command.outputFiles.foldlM (w.uploadOutputFile workDir command) ⟨result, []⟩
  let out ← command.outputDirectories.foldlM (w.uploadOutputDirectory workDir command) out
  command.outputPaths.foldlM (w.uploadOutputPath workDir command) out

def uploadOutputs (execResult : ExecResult) : EStateM GoError σ ActionResult := do
  let out ← w.buildOutputs workDir command execResult
  pure out.result

end Outlet

/-- What a blob store was given, latest first, and how many uploads were tried. -/
structure Blobs where
  puts : List (Digest × Bytes)
  attempts : Nat
deriving DecidableEq, Repr

abbrev UploadM := EStateM GoError Blobs

namespace Uploader

variable (w : Uploader)

/-- `Put` and `PutFile`. -/
def put (digest : Digest) (data : Bytes) : UploadM Unit := fun s =>
  match w.fails s.attempts with
  | some err => .error err { s with attempts := s.attempts + 1 }
  | none => .ok () { puts := (digest, data) :: s.puts, attempts := s.attempts + 1 }

/-- A store that keeps what it was given and leaves the files on disk alone. -/
abbrev blobs : Outlet Blobs :=
  { w with
    put := w.put
    putFile := fun _ _ file => w.put (w.newFromBlob file.data) file.data
    executable := fun _ file _ => file.executable }

abbrev buildTree (dirPath : Path) : UploadM (Tree × Digest) :=
  w.blobs.buildTree dirPath

abbrev uploadOutputs (workDir : Path) (command : Command) (execResult : ExecResult)
    : UploadM ActionResult :=
  w.blobs.uploadOutputs workDir command execResult

end Uploader

def Blobs.Has (s : Blobs) (digest : Digest) : Prop :=
  ∃ data, (digest, data) ∈ s.puts

namespace Uploader

variable (w : Uploader)

structure Continues (s s' : Blobs) : Prop where
  kept : ∀ put ∈ s.puts, put ∈ s'.puts
  later : s.attempts ≤ s'.attempts
  worked : ∀ k, s.attempts ≤ k → k < s'.attempts → w.fails k = none

variable {w} {s s' s'' : Blobs}

theorem Continues.refl (s : Blobs) : w.Continues s s :=
  ⟨fun _ held => held, Nat.le_refl _, fun _ start before => absurd start (Nat.not_le_of_lt before)⟩

theorem Continues.trans (first : w.Continues s s') (second : w.Continues s' s'')
    : w.Continues s s'' where
  kept put held := second.kept put (first.kept put held)
  later := Nat.le_trans first.later second.later
  worked k start before := by
    by_cases early : k < s'.attempts
    · exact first.worked k start early
    · exact second.worked k (Nat.le_of_not_lt early) before

theorem Continues.has (continues : w.Continues s s') {digest : Digest} (held : s.Has digest)
    : s'.Has digest := by
  obtain ⟨data, held⟩ := held
  exact ⟨data, continues.kept _ held⟩

variable (w)

def Ensures {α : Type} (program : UploadM α) (good : α → Blobs → Prop) (s : Blobs) : Prop :=
  Ends program (fun value s' => w.Continues s s' ∧ good value s') (fun _ _ => True) s

variable {w} {α β : Type} {good : α → Blobs → Prop}

namespace Ensures

theorem pure {value : α} (holds : good value s) : w.Ensures (pure value) good s :=
  Ends.pure ⟨.refl s, holds⟩

theorem throw {err : GoError} : w.Ensures (throw err) good s :=
  Ends.throw (α := α) trivial

theorem imp {program : UploadM α} {good' : α → Blobs → Prop}
    (ensures : w.Ensures program good s)
    (better : ∀ value s', w.Continues s s' → good value s' → good' value s')
    : w.Ensures program good' s :=
  Ends.imp ensures (fun value s' ended => ⟨ended.1, better value s' ended.1 ended.2⟩)

theorem bind {first : UploadM α} {next : α → UploadM β} {good : β → Blobs → Prop}
    (ensures : w.Ensures first (fun value s' => w.Ensures (next value) good s') s)
    : w.Ensures (first >>= next) good s := by
  refine Ends.bind (Ends.imp ensures ?_)
  intro value s' ended
  exact Ends.imp ended.2 (fun _ _ last => ⟨ended.1.trans last.1, last.2⟩)

theorem adaptExcept {program : UploadM α} {change : GoError → GoError}
    (ensures : w.Ensures program good s)
    : w.Ensures (program.adaptExcept change) good s :=
  Ends.adaptExcept ensures

theorem foldlM {items : List β} {body : α → β → UploadM α} {initial : α}
    (start : good initial s)
    (each : ∀ item value s, good value s → w.Ensures (body value item) good s)
    : w.Ensures (items.foldlM body initial) good s := by
  refine Ends.foldlM (fun _ value s' => w.Continues s s' ∧ good value s') ⟨.refl s, start⟩ ?_
  intro item rest value s' ended
  exact Ends.imp (each item value s' ended.2)
    (fun _ _ last => ⟨ended.1.trans last.1, last.2⟩)

end Ensures

theorem put_ensures (digest : Digest) (data : Bytes)
    : w.Ensures (w.put digest data) (fun _ s' => (digest, data) ∈ s'.puts) s := by
  unfold Ensures Ends put
  cases outcome : w.fails s.attempts with
  | some err => trivial
  | none =>
      refine ⟨⟨fun _ held => List.mem_cons_of_mem _ held, Nat.le_succ _, ?_⟩, List.mem_cons_self⟩
      intro k start before
      obtain rfl : k = s.attempts := by
        have : k < s.attempts + 1 := before
        omega
      exact outcome

theorem marshalled_ensures (result : Except GoError Bytes)
    : w.Ensures (Outlet.marshalled result) (fun data _ => result = .ok data) s := by
  cases result with
  | ok data => exact .pure rfl
  | error err => exact .throw

theorem uploadBlob_ensures (data : Bytes)
    : w.Ensures (w.blobs.uploadBlob data)
        (fun digest s' => digest = w.newFromBlob data ∧ (digest, data) ∈ s'.puts) s :=
  .bind ((put_ensures _ data).imp (fun _ _ _ held => .pure ⟨rfl, held⟩))

/-- A message that is marshalled and uploaded is in the store for what comes next. -/
theorem uploadMessage_ensures {result : Except GoError Bytes} {next : Digest → UploadM β}
    {good : β → Blobs → Prop}
    (ensures : ∀ data s', w.Continues s s' → result = .ok data →
      (w.newFromBlob data, data) ∈ s'.puts → w.Ensures (next (w.newFromBlob data)) good s')
    : w.Ensures (Outlet.marshalled result >>= fun data => w.blobs.uploadBlob data >>= next)
        good s := by
  refine .bind ((marshalled_ensures _).imp (fun data _ continues marshal => ?_))
  refine .bind ((uploadBlob_ensures data).imp ?_)
  rintro _ s' continues' ⟨rfl, stored⟩
  exact ensures data s' (continues.trans continues') marshal stored

theorem uploadContent_ensures (path place : Path) (file : File)
    : w.Ensures (w.blobs.uploadContent path place file)
        (fun digest s' => digest = w.newFromBlob file.data ∧ (digest, file.data) ∈ s'.puts) s := by
  unfold Outlet.uploadContent
  rw [ite_self]
  exact .bind ((put_ensures _ file.data).adaptExcept.imp (fun _ _ _ held => .pure ⟨rfl, held⟩))

/-- The mode of a file is the one that the command left. -/
theorem mode_ensures (place : Path) (info : Node)
    : w.Ensures (w.blobs.mode place info) (fun mode _ => mode = info.executable) s := by
  cases info <;> exact .pure rfl

theorem uploadFile_ensures (path : Path)
    : w.Ensures (w.blobs.uploadFile path) (fun digest s' => s'.Has digest) s := by
  unfold Outlet.uploadFile
  split
  next place file found =>
    exact (uploadContent_ensures path place file).imp (fun _ _ _ done => ⟨_, done.2⟩)
  next => exact .throw
  next => exact .throw
  next => exact .throw

/-- What a directory names: its files are in the store, and its subdirectories are children of
the tree and in the store.
-/
structure Names (w : Uploader) (children : List Directory) (s : Blobs) (dir : Directory)
    : Prop where
  files : ∀ node ∈ dir.files, ∃ digest, node.digest = some digest ∧ s.Has digest
  directories : ∀ node ∈ dir.directories, ∃ child ∈ children, ∃ data,
    w.marshalDirectory child = .ok data ∧ node.digest = some (w.newFromBlob data)
      ∧ s.Has (w.newFromBlob data)

def Closed (w : Uploader) (tree : Tree) (s : Blobs) : Prop :=
  ∀ dir ∈ tree.root :: tree.children, w.Names tree.children s dir

variable {dir : Directory} {children children' : List Directory}

theorem Names.empty : w.Names children s .empty :=
  ⟨fun _ => nofun, fun _ => nofun⟩

theorem Names.mono (names : w.Names children s dir) (more : children ⊆ children')
    (continues : w.Continues s s')
    : w.Names children' s' dir where
  files node held := by
    obtain ⟨digest, named, stored⟩ := names.files node held
    exact ⟨digest, named, continues.has stored⟩
  directories node held := by
    obtain ⟨child, listed, data, marshal, named, stored⟩ := names.directories node held
    exact ⟨child, more listed, data, marshal, named, continues.has stored⟩

theorem Names.addFile (names : w.Names children s dir) {node : FileNode} {digest : Digest}
    (named : node.digest = some digest) (stored : s.Has digest)
    : w.Names children s { dir with files := dir.files ++ [node] } where
  files other held := by
    rcases List.mem_append.mp held with held | held
    · exact names.files other held
    · obtain rfl := List.mem_singleton.mp held
      exact ⟨digest, named, stored⟩
  directories := names.directories

theorem Names.addDirectory (names : w.Names children s dir) {node : DirectoryNode}
    {child : Directory} {data : Bytes} (listed : child ∈ children)
    (marshal : w.marshalDirectory child = .ok data)
    (named : node.digest = some (w.newFromBlob data)) (stored : s.Has (w.newFromBlob data))
    : w.Names children s { dir with directories := dir.directories ++ [node] } where
  files := names.files
  directories other held := by
    rcases List.mem_append.mp held with held | held
    · exact names.directories other held
    · obtain rfl := List.mem_singleton.mp held
      exact ⟨child, listed, data, marshal, named, stored⟩

/-- What the loop over a directory holds on to: the directory so far and the children so far name
only children and stored blobs.
-/
structure Linked (w : Uploader) (built : Directory × List Directory) (s : Blobs) : Prop where
  dir : w.Names built.2 s built.1
  children : ∀ child ∈ built.2, w.Names built.2 s child

theorem Linked.mono (linked : w.Linked (dir, children) s) (continues : w.Continues s s')
    : w.Linked (dir, children) s' :=
  ⟨linked.dir.mono (List.Subset.refl _) continues,
    fun child listed => (linked.children child listed).mono (List.Subset.refl _) continues⟩

/-- The loop keeps its invariant and never drops a child, by induction on the entries: a
subdirectory starts with the children so far and becomes one itself.
-/
theorem buildEntries_ensures (listing : Listing) (dirPath place : Path)
    (linked : w.Linked (dir, children) s)
    : w.Ensures (w.blobs.buildEntries dirPath place listing dir children)
        (fun built s' => w.Linked built s' ∧ children ⊆ built.2) s := by
  induction listing generalizing dirPath place dir children s with
  | nil => exact .pure ⟨linked, List.Subset.refl _⟩
  | file name file rest ih =>
      refine .bind ((mode_ensures _ _).imp ?_)
      rintro _ s₁ continues₁ -
      refine .bind ((uploadContent_ensures _ _ file).imp ?_)
      rintro digest s' continues ⟨-, stored⟩
      have linked := linked.mono (continues₁.trans continues)
      exact ih dirPath place ⟨linked.dir.addFile rfl ⟨_, stored⟩, linked.children⟩
  | symlink name target rest ih =>
      exact ih dirPath place ⟨⟨linked.dir.files, linked.dir.directories⟩, linked.children⟩
  | dir name sub rest ihSub ihRest =>
      refine .bind ((ihSub _ _ ⟨.empty, linked.children⟩).imp ?_)
      rintro ⟨subdir, children'⟩ s₁ continues₁ ⟨inner, more⟩
      refine uploadMessage_ensures (fun data s₃ later marshal stored => ?_)
      -- the new child names only children that were there before it
      have grown : children' ⊆ children' ++ [subdir] := List.subset_append_left _ _
      have listed : subdir ∈ children' ++ [subdir] := List.mem_append_right _ List.mem_cons_self
      have outer := (linked.dir.mono more continues₁).mono grown later
      refine (ihRest dirPath place ⟨outer.addDirectory listed marshal rfl ⟨_, stored⟩, ?_⟩).imp ?_
      · intro child held
        rcases List.mem_append.mp held with held | held
        · exact (inner.children child held).mono grown later
        · obtain rfl := List.mem_singleton.mp held
          exact inner.dir.mono grown later
      · rintro built s₄ - ⟨last, kept⟩
        exact ⟨last, List.Subset.trans (List.Subset.trans more grown) kept⟩

structure Stored (w : Uploader) (tree : Tree) (rootDigest : Digest) (s : Blobs) : Prop where
  closed : w.Closed tree s
  root : ∃ data, w.marshalDirectory tree.root = .ok data ∧ rootDigest = w.newFromBlob data
    ∧ s.Has rootDigest

theorem Stored.mono {tree : Tree} {rootDigest : Digest} (stored : w.Stored tree rootDigest s)
    (continues : w.Continues s s')
    : w.Stored tree rootDigest s' where
  closed dir held := (stored.closed dir held).mono (List.Subset.refl _) continues
  root := by
    obtain ⟨data, marshal, named, held⟩ := stored.root
    exact ⟨data, marshal, named, continues.has held⟩

theorem buildTree_ensures (dirPath : Path)
    : w.Ensures (w.blobs.buildTree dirPath) (fun built s' => w.Stored built.1 built.2 s') s := by
  have entries : w.Ensures (w.blobs.buildDirectoryProto dirPath [])
      (fun built s' => w.Linked built s') s := by
    unfold Outlet.buildDirectoryProto
    split
    next place listing found =>
      have start : w.Linked (.empty, []) s := ⟨.empty, fun _ => nofun⟩
      exact (buildEntries_ensures listing dirPath place start).imp (fun _ _ _ done => done.1)
    next => exact .throw
    next => exact .throw
  refine .bind (entries.imp ?_)
  rintro ⟨root, children⟩ s₁ - linked
  refine uploadMessage_ensures (fun data s₃ later marshal stored => ?_)
  have linked := linked.mono later
  refine .pure ⟨?_, data, marshal, rfl, _, stored⟩
  intro dir held
  rcases List.mem_cons.mp held with rfl | held
  · exact linked.dir
  · exact linked.children dir held

def HoldsDirectory (w : Uploader) (s : Blobs) (output : OutputDirectory) : Prop :=
  ∃ tree data, w.marshalTree tree = .ok data ∧ output.treeDigest = w.newFromBlob data
    ∧ (output.treeDigest, data) ∈ s.puts ∧ w.Stored tree output.rootDirectoryDigest s

/-- Every digest in the result is in the store, and the trees are closed. -/
structure Uploaded (w : Uploader) (result : ActionResult) (s : Blobs) : Prop where
  stdout : ∀ digest, result.stdoutDigest = some digest → s.Has digest
  stderr : ∀ digest, result.stderrDigest = some digest → s.Has digest
  files : ∀ output ∈ result.outputFiles, s.Has output.digest
  directories : ∀ output ∈ result.outputDirectories, w.HoldsDirectory s output

variable {result : ActionResult} {out : Outputs}

theorem HoldsDirectory.mono {output : OutputDirectory} (holds : w.HoldsDirectory s output)
    (continues : w.Continues s s')
    : w.HoldsDirectory s' output := by
  obtain ⟨tree, data, marshal, named, held, stored⟩ := holds
  exact ⟨tree, data, marshal, named, continues.kept _ held, stored.mono continues⟩

theorem Uploaded.mono (uploaded : w.Uploaded result s) (continues : w.Continues s s')
    : w.Uploaded result s' where
  stdout digest named := continues.has (uploaded.stdout digest named)
  stderr digest named := continues.has (uploaded.stderr digest named)
  files output held := continues.has (uploaded.files output held)
  directories output held := (uploaded.directories output held).mono continues

theorem addFile_ensures (fullPath : Path) (outputPath : String) (place : Path) (info : Node)
    (uploaded : w.Uploaded out.result s)
    : w.Ensures (w.blobs.addFile fullPath outputPath place info out)
        (fun out s' => w.Uploaded out.result s') s := by
  refine .bind ((mode_ensures place info).imp ?_)
  rintro _ s₁ continues₁ -
  refine .bind ((uploadFile_ensures fullPath).adaptExcept.imp ?_)
  intro digest s' continues held
  have uploaded := uploaded.mono (continues₁.trans continues)
  refine .pure { uploaded with files := ?_ }
  intro output listed
  rcases List.mem_append.mp listed with listed | listed
  · exact uploaded.files output listed
  · obtain rfl := List.mem_singleton.mp listed
    exact held

theorem addDirectory_ensures (fullPath : Path) (outputPath : String)
    (uploaded : w.Uploaded out.result s)
    : w.Ensures (w.blobs.addDirectory fullPath outputPath out)
        (fun out s' => w.Uploaded out.result s') s := by
  refine .bind ((buildTree_ensures fullPath).adaptExcept.imp ?_)
  rintro ⟨tree, rootDigest⟩ s₁ continues₁ stored
  refine .bind ((marshalled_ensures _).imp ?_)
  intro data s₂ continues₂ marshal
  refine .bind ((uploadBlob_ensures data).adaptExcept.imp ?_)
  rintro digest s₃ continues₃ ⟨rfl, held⟩
  have later := continues₂.trans continues₃
  have uploaded := uploaded.mono (continues₁.trans later)
  refine .pure { uploaded with directories := ?_ }
  intro output listed
  rcases List.mem_append.mp listed with listed | listed
  · exact uploaded.directories output listed
  · obtain rfl := List.mem_singleton.mp listed
    exact ⟨tree, data, marshal, rfl, held, stored.mono later⟩

theorem uploadStream_ensures (name : String) (data : Bytes)
    : w.Ensures (w.blobs.uploadStream name data)
        (fun found s' => ∀ digest, found = some digest → s'.Has digest) s := by
  unfold Outlet.uploadStream
  split
  next =>
    refine .bind ((uploadBlob_ensures data).adaptExcept.imp ?_)
    rintro digest s' - ⟨-, held⟩
    exact .pure (fun _ same => Option.some.inj same ▸ ⟨data, held⟩)
  next => exact .pure (fun _ => nofun)

section Loops

variable (workDir : Path) (command : Command) (outputPath : String)

theorem uploadOutputFile_ensures (uploaded : w.Uploaded out.result s)
    : w.Ensures (w.blobs.uploadOutputFile workDir command out outputPath)
        (fun out s' => w.Uploaded out.result s') s := by
  unfold Outlet.uploadOutputFile
  dsimp only
  split
  next => exact .pure uploaded
  next => exact .throw
  next place info _ => exact addFile_ensures _ outputPath place info uploaded

theorem uploadOutputDirectory_ensures (uploaded : w.Uploaded out.result s)
    : w.Ensures (w.blobs.uploadOutputDirectory workDir command out outputPath)
        (fun out s' => w.Uploaded out.result s') s := by
  unfold Outlet.uploadOutputDirectory
  dsimp only
  split
  next => exact .pure uploaded
  next => exact addDirectory_ensures _ outputPath uploaded

theorem uploadOutputPath_ensures (uploaded : w.Uploaded out.result s)
    : w.Ensures (w.blobs.uploadOutputPath workDir command out outputPath)
        (fun out s' => w.Uploaded out.result s') s := by
  unfold Outlet.uploadOutputPath
  dsimp only
  split
  next => exact .pure uploaded
  next => exact .throw
  next => exact addDirectory_ensures _ outputPath uploaded
  next place info _ _ => exact addFile_ensures _ outputPath place info uploaded

end Loops

theorem loop_ensures {body : Outputs → String → UploadM Outputs}
    (each : ∀ outputPath out s, w.Uploaded out.result s →
      w.Ensures (body out outputPath) (fun out s' => w.Uploaded out.result s') s)
    (uploaded : w.Uploaded out.result s) (outputs : List String)
    : w.Ensures (outputs.foldlM body out) (fun out s' => w.Uploaded out.result s') s :=
  .foldlM uploaded each

theorem uploadOutputs_ensures (workDir : Path) (command : Command) (execResult : ExecResult)
    : w.Ensures (w.uploadOutputs workDir command execResult) w.Uploaded s := by
  refine .bind (Ensures.imp ?_ (fun out _ _ uploaded => .pure uploaded))
  refine .bind ((uploadStream_ensures "stdout" execResult.stdout).imp ?_)
  intro stdoutDigest s₁ continues₁ stdout
  refine .bind ((uploadStream_ensures "stderr" execResult.stderr).imp ?_)
  intro stderrDigest s₂ continues₂ stderr
  refine .bind ((loop_ensures ?_ ?_ command.outputFiles).imp ?_)
  · exact fun outputPath _ _ => uploadOutputFile_ensures workDir command outputPath
  · exact ⟨fun digest named => continues₂.has (stdout digest named), stderr, fun _ => nofun,
      fun _ => nofun⟩
  intro out s₃ continues₃ uploaded
  refine .bind ((loop_ensures ?_ uploaded command.outputDirectories).imp ?_)
  · exact fun outputPath _ _ => uploadOutputDirectory_ensures workDir command outputPath
  intro out s₄ continues₄ uploaded
  exact loop_ensures (fun outputPath _ _ => uploadOutputPath_ensures workDir command outputPath)
    uploaded command.outputPaths

/-- Whatever a returned result names is in the store and its trees are closed; when an upload on
the way fails, there is no result.
-/
theorem result_names_uploaded (w : Uploader) (workDir : Path) (command : Command)
    (execResult : ExecResult) (s : Blobs)
    : (∀ result s', w.uploadOutputs workDir command execResult s = .ok result s' →
        w.Uploaded result s')
      ∧ ∀ k, s.attempts ≤ k →
          k < (finalState (w.uploadOutputs workDir command execResult s)).attempts →
          w.fails k ≠ none →
          ∃ err s', w.uploadOutputs workDir command execResult s = .error err s' := by
  have ensures : w.Ensures (w.uploadOutputs workDir command execResult) w.Uploaded s :=
    uploadOutputs_ensures workDir command execResult
  refine ⟨fun result s' returned => (ensures.of_eq_ok returned).2, ?_⟩
  intro k start before failed
  cases ran : w.uploadOutputs workDir command execResult s with
  | error err s' => exact ⟨err, s', rfl⟩
  | ok result s' =>
      rw [ran] at before
      exact absurd ((ensures.of_eq_ok ran).1.worked k start before) failed

end Uploader

def lastDigitHash (data : Bytes) : String :=
  String.ofList (List.replicate 63 '0' ++ [Nat.digitChar ((data.head?.getD 0).toNat % 10)])

theorem lastDigitHash_canonical (data : Bytes)
    : Server.canonicalHash (lastDigitHash data).toList = true := by
  have digits : ∀ n < 10, Server.isLowerHex (Nat.digitChar n) = true := by decide
  have zero : Server.isLowerHex '0' = true := by decide
  have last := digits ((data.head?.getD 0).toNat % 10) (Nat.mod_lt _ (by decide))
  simp [Server.canonicalHash, lastDigitHash, zero, last]

def smallEncoding (sub root : Directory) : Encoding where
  marshalDirectory dir :=
    if dir = sub then .ok [1]
    else if dir = root then .ok [2]
    else .error (.plain "unknown directory")
  unmarshalDirectory data :=
    if data = [1] then .ok sub
    else if data = [2] then .ok root
    else .error (.plain "unknown text")
  marshalTree _ := .ok [3]
  hash := lastDigitHash
  canonical := lastDigitHash_canonical
  sdk := .plain

def smallListing : Listing :=
  .dir ⟨"d", by decide⟩ (.file ⟨"f", by decide⟩ { data := [7], executable := true } .nil)
    (.symlink ⟨"l", by decide⟩ ⟨"d/f", by decide⟩ .nil)

def smallSub : Directory where
  files := [{ name := "f", digest := some ⟨lastDigitHash [7], 1⟩, isExecutable := true }]
  directories := []
  symlinks := []

def smallRoot : Directory where
  files := []
  directories := [{ name := "d", digest := some ⟨lastDigitHash [1], 1⟩ }]
  symlinks := [{ name := "l", target := "d/f" }]

theorem normal_w : Path.Normal "w" := by decide

theorem normal_out : Path.Normal "out" := by decide

def smallUploader (fails : Nat → Option GoError) : Uploader where
  toEncoding := smallEncoding smallSub smallRoot
  localBlobs := true
  fails := fails
  files := .dir ⟨"w", normal_w⟩ (.dir ⟨"out", normal_out⟩ smallListing .nil) .nil

def smallCommand : Command where
  arguments := ["true"]
  workingDirectory := ""
  outputFiles := ["out/d/f"]
  outputDirectories := ["out"]
  outputPaths := ["missing", "out/l"]

namespace Uploader

/-- The result of the small command names a tree and two files, all of them uploaded; with the
third upload failing it has no result.
-/
theorem small_outputs_uploaded
    : (∃ result s',
        (smallUploader (fun _ => none)).uploadOutputs ["w"] smallCommand ⟨0, [9], []⟩ ⟨[], 0⟩
          = .ok result s'
        ∧ result.outputDirectories.length = 1 ∧ result.outputFiles.length = 2
        ∧ (smallUploader (fun _ => none)).Uploaded result s')
      ∧ ∃ err s',
        (smallUploader (fun k => if k = 2 then some (.plain "disk full") else none)).uploadOutputs
          ["w"] smallCommand ⟨0, [9], []⟩ ⟨[], 0⟩ = .error err s' := by
  refine ⟨⟨_, _, rfl, by decide, by decide, ?_⟩, ?_⟩
  · exact (result_names_uploaded (smallUploader (fun _ => none)) ["w"] smallCommand
      ⟨0, [9], []⟩ ⟨[], 0⟩).1 _ _ rfl
  · exact (result_names_uploaded
      (smallUploader (fun k => if k = 2 then some (.plain "disk full") else none)) ["w"]
      smallCommand ⟨0, [9], []⟩ ⟨[], 0⟩).2 2 (by decide) (by decide) (by decide)

end Uploader

end GoREgo.Worker
