import GoREgo.Execution.Described
import GoREgo.Execution.StagingSteps

/-! Uploading and staging are inverse: what `buildTree` uploads for a directory, `stageDirectory`
brings back as the same directory.
-/

namespace GoREgo.Worker

open Lib

def Node.shape : Node → Shape
  | .file held => .file held.data
  | .symlink target => .symlink target.text
  | .dir _ => .dir

def Listing.shapeAt (listing : Listing) (path : Path) : Option Shape :=
  (listing.nodeAt path).map Node.shape

def Listing.nodeBelow : Option Node → Path → Option Node
  | some (.dir sub), rel => sub.nodeAt rel
  | found, rel => if rel = [] then found else none

theorem Listing.nodeAt_cons (listing : Listing) (name : String) (rel : Path)
    : listing.nodeAt (name :: rel) = nodeBelow (listing.find name) rel := by
  rw [nodeAt]
  cases listing.find name with
  | none => rfl
  | some node => cases node <;> rfl

def Listing.done (listing : Listing) (pending : List String) (name : String) : Option Node :=
  if name ∈ pending then none else listing.find name

/-- The directory shows the entries of the listing that are not pending, and nothing else has
changed since `host`.
-/
structure Progress (host : Host) (target : Path) (listing : Listing) (pending : List String)
    (host' : Host) : Prop where
  keeps : host.Keeps host'
  isDir : host'.shape target = some .dir
  shows : ∀ name rel, host'.shape (target ++ name :: rel)
    = (Listing.nodeBelow (listing.done pending name) rel).map Node.shape
  frame : ∀ path, ¬ target <+: path → host'.shape path = host.shape path

namespace Progress

variable {host host₁ host₂ : Host} {target : Path} {listing : Listing} {pending : List String}
  {name : String} {node : Node}

theorem free (progress : Progress host target listing (name :: pending) host₁)
    : host₁.volume.entries (target ++ [name]) = none := by
  refine Host.entries_of_none ?_
  rw [progress.shows name []]
  simp [Listing.done, Listing.nodeBelow]

theorem done_cons (fresh : name ∉ pending) (found : listing.find name = some node)
    (other : String)
    : listing.done pending other
      = if other = name then some node else listing.done (name :: pending) other := by
  unfold Listing.done
  by_cases same : other = name
  · subst same
    rw [if_neg fresh, if_pos rfl, found]
  · simp [same]

theorem leaf (progress : Progress host target listing (name :: pending) host₁)
    (fresh : name ∉ pending) (found : listing.find name = some node)
    (flat : ∀ sub, node ≠ .dir sub) (adds : host₁.Adds host₂ (target ++ [name]) node.shape)
    : Progress host target listing pending host₂ where
  keeps := progress.keeps.trans adds.keeps
  isDir := by
    rw [adds.elsewhere target (by simp)]
    exact progress.isDir
  shows other rel := by
    rw [done_cons fresh found]
    by_cases place : target ++ other :: rel = target ++ [name]
    · obtain ⟨rfl, rfl⟩ := List.cons.inj (List.append_cancel_left place)
      rw [adds.made, if_pos rfl]
      cases node with
      | dir sub => exact absurd rfl (flat sub)
      | file held => rfl
      | symlink target => rfl
    · rw [adds.elsewhere _ place, progress.shows]
      by_cases same : other = name
      · subst same
        have deeper : rel ≠ [] := by
          rintro rfl
          exact place rfl
        rw [if_pos rfl]
        cases node with
        | dir sub => exact absurd rfl (flat sub)
        | file held => simp [Listing.done, Listing.nodeBelow, deeper]
        | symlink target => simp [Listing.done, Listing.nodeBelow, deeper]
      · rw [if_neg same]
  frame path outside := by
    have place : path ≠ target ++ [name] := by
      rintro rfl
      exact outside (List.prefix_append _ _)
    rw [adds.elsewhere path place]
    exact progress.frame path outside

theorem subdir {sub : Listing} (progress : Progress host target listing (name :: pending) host₁)
    (fresh : name ∉ pending) (found : listing.find name = some (.dir sub))
    (inner : Progress host₁ (target ++ [name]) sub [] host₂)
    : Progress host target listing pending host₂ where
  keeps := progress.keeps.trans inner.keeps
  isDir := by
    rw [inner.frame target (fun below => absurd below.length_le (by simp))]
    exact progress.isDir
  shows other rel := by
    rw [done_cons fresh found]
    by_cases same : other = name
    · subst same
      rw [if_pos rfl]
      cases rel with
      | nil => exact inner.isDir
      | cons next rel =>
          have shown := inner.shows next rel
          rw [List.append_assoc, List.singleton_append] at shown
          rw [shown, Listing.nodeBelow, Listing.nodeAt_cons]
          simp [Listing.done]
    · have outside : ¬ target ++ [name] <+: target ++ other :: rel := by
        intro below
        have head := (List.prefix_append_right_inj target).mp below
        exact same (List.cons_prefix_cons.mp head).1.symm
      rw [inner.frame _ outside, progress.shows, if_neg same]
  frame path outside := by
    have beyond : ¬ target ++ [name] <+: path :=
      fun below => outside ((List.prefix_append _ _).trans below)
    rw [inner.frame path beyond]
    exact progress.frame path outside

end Progress

def Host.Returns (host : Host) (s : Blobs) : Prop :=
  ∀ digest data, (digest, data) ∈ s.puts →
    ∃ inode, host.blobs digest = some inode ∧ inode < host.volume.next
      ∧ (host.volume.files inode).data = data

theorem Host.Keeps.returns {host host' : Host} {s : Blobs} (keeps : host.Keeps host')
    (returns : host.Returns s)
    : host'.Returns s := by
  intro digest data given
  obtain ⟨inode, blob, before, held⟩ := returns digest data given
  exact ⟨inode, keeps.blobs ▸ blob, Nat.lt_of_lt_of_le before keeps.next,
    (keeps.data inode before).trans held⟩

namespace Stager

variable {w : Stager} {host : Host} {target : Path} {listing : Listing}

theorem mkdirAll_progress {pending : List String} (ready : host.Ready target)
    (all : ∀ name ∈ listing.names, name ∈ pending)
    : Works (onVolume (Volume.mkdirAll target))
        (fun _ host' => Progress host target listing pending host') host := by
  have nothing : ∀ name rel,
      (Listing.nodeBelow (listing.done pending name) rel).map Node.shape = none := by
    intro name rel
    have undone : listing.done pending name = none := by
      unfold Listing.done
      split
      next => rfl
      next absent => exact Listing.find_eq_none (fun held => absent (all name held))
    rw [undone]
    simp [Listing.nodeBelow]
  have below := ready.nothing_below
  rcases ready with ⟨isDir, -⟩ | ⟨dir, name, rfl, isDir, normal, free⟩
  · refine onVolume_works (Volume.mkdirAll_of_dir isDir) ⟨.refl host, ?_, ?_, fun _ _ => rfl⟩
    · exact Host.shape_of_dir isDir
    · intro name rel
      rw [nothing]
      exact below name rel
  · refine (mkdirAll_works isDir normal free).imp ?_
    intro _ host' adds
    refine ⟨adds.keeps, adds.made, ?_, ?_⟩
    · intro name rel
      rw [nothing, adds.elsewhere _ (by simp)]
      exact below name rel
    · intro path outside
      refine adds.elsewhere path ?_
      rintro rfl
      exact outside (List.prefix_refl _)

variable {s : Blobs} {dir : Directory} {host₁ : Host} {pending : List String}

theorem fetchDirectory_works {data : Bytes}
    (inverse : ∀ dir data, w.marshalDirectory dir = .ok data →
      w.unmarshalDirectory data = .ok dir)
    (marshal : w.marshalDirectory dir = .ok data)
    (stored : (w.newFromBlob data, data) ∈ s.puts) (returns : host.Returns s)
    : Works (w.fetchDirectory (w.newFromBlob data)) (fun found host' => found = dir ∧ host' = host)
        host := by
  obtain ⟨inode, blob, -, held⟩ := returns _ _ stored
  refine Ends.bind (get_works blob ?_)
  refine Ends.bind ?_
  unfold Ends readAll
  rw [held]
  exact checked_works (inverse dir data marshal) ⟨rfl, rfl⟩

theorem stageFileNode_works {node : FileNode} (describes : Describes w.toEncoding s listing dir)
    (sorted : listing.Sorted) (held : node ∈ dir.files) (returns : host₁.Returns s)
    (progress : Progress host target listing (node.name :: pending) host₁)
    (fresh : node.name ∉ pending)
    : Works (w.stageFileNode target node)
        (fun _ host₂ => Progress host target listing pending host₂) host₁ := by
  obtain ⟨file, listed, digest, stored⟩ := describes.file_mem held
  obtain ⟨inode, blob, before, data⟩ := returns _ _ stored
  have normal := Listing.normal_of_mem listed
  have isDir := Host.entries_of_dir progress.isDir
  refine Ends.bind (newFromProto_works (digest ▸ w.newFromProto_newFromBlob file.data) ?_)
  rw [Path.join_normal normal]
  refine Ends.adaptExcept
    ((stageFile_works isDir normal progress.free blob before node.isExecutable).imp ?_)
  intro _ host₂ adds
  rw [data] at adds
  exact progress.leaf fresh (Listing.find_of_mem sorted.nodup listed) (fun _ => nofun) adds

theorem stageSymlink_works {node : SymlinkNode}
    (describes : Describes w.toEncoding s listing dir) (sorted : listing.Sorted)
    (held : node ∈ dir.symlinks)
    (progress : Progress host target listing (node.name :: pending) host₁)
    (fresh : node.name ∉ pending)
    : Works (stageSymlink target node)
        (fun _ host₂ => Progress host target listing pending host₂) host₁ := by
  obtain ⟨link, listed, text⟩ := describes.symlink_mem held
  have normal := Listing.normal_of_mem listed
  have isDir := Host.entries_of_dir progress.isDir
  unfold stageSymlink
  rw [Path.join_normal normal, text]
  refine Ends.adaptExcept ((symlink_works isDir normal progress.free link.nonempty).imp ?_)
  intro _ host₂ adds
  exact progress.leaf fresh (Listing.find_of_mem sorted.nodup listed) (fun _ => nofun) adds

/-- Staging a described directory brings back its listing, by induction on the depth. -/
theorem stageDirectory_works
    (inverse : ∀ dir data, w.marshalDirectory dir = .ok data →
      w.unmarshalDirectory data = .ok dir)
    {fuel : Nat} {data : Bytes} (deep : listing.depth < fuel) (sorted : listing.Sorted)
    (describes : Describes w.toEncoding s listing dir)
    (marshal : w.marshalDirectory dir = .ok data)
    (stored : (w.newFromBlob data, data) ∈ s.puts) (returns : host.Returns s)
    (ready : host.Ready target)
    : Works (w.stageDirectory fuel target (w.newFromBlob data))
        (fun _ host' => Progress host target listing [] host') host := by
  induction fuel generalizing listing dir data target host with
  | zero => exact absurd deep (Nat.not_lt_zero _)
  | succ fuel ih =>
      have names := describes.names_perm
      have distinct := names.nodup_iff.mpr sorted.nodup
      have distinctLinks := (List.nodup_append.mp distinct).2.1
      have distinctDirs := (List.nodup_append.mp distinctLinks).2.1
      refine Ends.bind (Ends.bind
        ((mkdirAll_progress ready (fun _ held => names.mem_iff.mpr held)).imp ?_))
      intro _ host₁ progress
      refine Ends.bind ((fetchDirectory_works inverse marshal stored
        (progress.keeps.returns returns)).imp ?_)
      rintro found _ ⟨rfl, rfl⟩
      refine Ends.bind ((forM_pending distinct ?_ progress).imp ?_)
      · intro node held pending host₂ fresh progress
        exact stageFileNode_works describes sorted held (progress.keeps.returns returns) progress
          fresh
      intro _ host₂ progress
      refine Ends.bind ((forM_pending distinctLinks ?_ progress).imp ?_)
      · intro node held pending host₃ fresh progress
        exact stageSymlink_works describes sorted held progress fresh
      intro _ host₃ progress
      refine Ends.pure ?_
      rw [← List.append_nil (found.directories.map DirectoryNode.name)] at distinctDirs progress
      refine forM_pending distinctDirs ?_ progress
      intro node held pending host₄ fresh progress
      obtain ⟨sub, subdir, subData, listed, inner, subMarshal, subStored, digest⟩ :=
        describes.directory_mem held
      have normal := Listing.normal_of_mem listed
      obtain ⟨shallower, below⟩ := Listing.below_of_mem listed
      refine Ends.bind (newFromProto_works (digest ▸ w.newFromProto_newFromBlob subData) ?_)
      rw [Path.join_normal normal]
      have place : host₄.Ready (target ++ [node.name]) :=
        .inr ⟨target, node.name, rfl, Host.entries_of_dir progress.isDir, normal, progress.free⟩
      refine (ih (by omega) (below sorted) inner subMarshal subStored
        (progress.keeps.returns returns) place).imp ?_
      intro _ host₅ whole
      exact progress.subdir fresh (Listing.find_of_mem sorted.nodup listed) whole

end Stager

theorem Progress.shapeAt {host host' : Host} {target : Path} {listing : Listing}
    (progress : Progress host target listing [] host') (rel : Path)
    : host'.shape (target ++ rel) = listing.shapeAt rel := by
  cases rel with
  | nil =>
      rw [List.append_nil]
      exact progress.isDir
  | cons name rel =>
      rw [progress.shows, Listing.shapeAt, Listing.nodeAt_cons]
      simp [Listing.done]

/-- Blobs under their digests, when no two of them share a digest: a store that returns the
latest blob of a digest returns what was put.
-/
theorem Host.returns_of_lookup {host : Host} {s : Blobs}
    (collisionFree : ∀ digest x y, (digest, x) ∈ s.puts → (digest, y) ∈ s.puts → x = y)
    (store : ∀ digest data, s.puts.lookup digest = some data →
      ∃ inode, host.blobs digest = some inode ∧ inode < host.volume.next
        ∧ (host.volume.files inode).data = data)
    : host.Returns s := by
  intro digest data given
  cases found : s.puts.lookup digest with
  | none =>
      have absent := List.lookup_eq_none_iff.mp found (digest, data) given
      simp at absent
  | some latest =>
      have held : (digest, latest) ∈ s.puts := by
        obtain ⟨before, after, split, -⟩ := List.lookup_eq_some_iff.mp found
        rw [split]
        exact List.mem_append_right _ List.mem_cons_self
      obtain rfl := collisionFree digest data latest given held
      exact store digest data found

/-- After `buildTree` of a directory, `stageDirectory` of the root digest into an empty directory
brings the same directory back. The messages have their nodes in order, and directories that look
the same have the same root digest.
-/
theorem stageDirectory_inverts_buildTree {w : Uploader} {stager : Stager}
    (shared : stager.toEncoding = w.toEncoding)
    (inverse : ∀ dir data, w.marshalDirectory dir = .ok data →
      w.unmarshalDirectory data = .ok dir)
    {dirPath target : Path} {listing : Listing} {s s' : Blobs} {tree : Tree}
    {rootDigest : Digest} {host : Host}
    (found : w.files.stat dirPath = .ok (.dir listing)) (sorted : listing.Sorted)
    (built : w.buildTree dirPath s = .ok (tree, rootDigest) s')
    (collisionFree : ∀ digest x y, (digest, x) ∈ s'.puts → (digest, y) ∈ s'.puts → x = y)
    (store : ∀ digest data, s'.puts.lookup digest = some data →
      ∃ inode, host.blobs digest = some inode ∧ inode < host.volume.next
        ∧ (host.volume.files inode).data = data)
    (isDir : host.volume.entries target = some .dir)
    (empty : ∀ name, host.volume.entries (target ++ [name]) = none)
    : (∀ fuel, listing.depth < fuel →
        ∃ host', stager.stageDirectory fuel target rootDigest host = .ok () host'
          ∧ ∀ rel, host'.shape (target ++ rel) = listing.shapeAt rel)
      ∧ (∀ dir ∈ tree.root :: tree.children, dir.Ordered)
      ∧ ∀ (w' : Uploader) (dirPath' : Path) (listing' : Listing) (s₁ s₂ : Blobs) (tree' : Tree)
          (rootDigest' : Digest), w'.toEncoding = w.toEncoding →
          w'.files.stat dirPath' = .ok (.dir listing') → listing'.Sorted →
          listing.SameTree listing' → w'.buildTree dirPath' s₁ = .ok (tree', rootDigest') s₂ →
          rootDigest' = rootDigest := by
  have builds := ((Uploader.buildTree_builds found sorted).of_eq_ok built).2
  refine ⟨?_, builds.ordered, ?_⟩
  · intro fuel deep
    obtain ⟨data, marshal, rfl, stored⟩ := builds.stored
    have returns := Host.returns_of_lookup collisionFree store
    have works := Stager.stageDirectory_works (w := stager) (shared ▸ inverse) deep sorted
      (shared ▸ builds.describes) (shared ▸ marshal) (shared ▸ stored) returns
      (.inl ⟨isDir, empty⟩)
    obtain ⟨_, host', ran, progress⟩ := works.returns
    exact ⟨host', shared ▸ ran, progress.shapeAt⟩
  · intro w' dirPath' listing' s₁ s₂ tree' rootDigest' shared' found' sorted' same built'
    obtain rfl := same.eq sorted sorted'
    have again := ((Uploader.buildTree_builds found' sorted').of_eq_ok built').2
    exact again.digest_eq builds shared'

def smallVolume : Volume File :=
  Volume.bare (fun inode => { data := [[7], [1], [2]].getD inode [], executable := false }) 3

def smallHost : Host where
  volume := smallVolume.add [] "t" .dir rfl (by decide) rfl trivial
  blobs digest :=
    [(⟨lastDigitHash [7], 1⟩, 0), (⟨lastDigitHash [1], 1⟩, 1), (⟨lastDigitHash [2], 1⟩, 2)].lookup
      digest

def smallStager : Stager where
  toEncoding := smallEncoding smallSub smallRoot
  localBlobs := true
  linkable := true
  missing digest := .plain ("blob not found: " ++ digest.hash)

def smallBlobs : Blobs where
  puts := [(⟨lastDigitHash [2], 1⟩, [2]), (⟨lastDigitHash [1], 1⟩, [1]),
    (⟨lastDigitHash [7], 1⟩, [7])]
  attempts := 3

theorem smallEncoding_inverse (dir : Directory) (data : Bytes)
    (marshal : (smallEncoding smallSub smallRoot).marshalDirectory dir = .ok data)
    : (smallEncoding smallSub smallRoot).unmarshalDirectory data = .ok dir := by
  simp only [smallEncoding] at marshal ⊢
  split at marshal
  next same =>
    obtain rfl := Except.ok.inj marshal
    rw [if_pos rfl, same]
  next =>
    split at marshal
    next same =>
      obtain rfl := Except.ok.inj marshal
      rw [if_neg (by decide), if_pos rfl, same]
    next => cases marshal

/-- The small directory comes back in `/t`. -/
theorem small_directory_comes_back
    : ∃ tree rootDigest host',
        (smallUploader (fun _ => none)).buildTree ["w", "out"] ⟨[], 0⟩
          = .ok (tree, rootDigest) smallBlobs
        ∧ smallStager.stageDirectory 2 ["t"] rootDigest smallHost = .ok () host'
        ∧ ∀ rel, host'.shape (["t"] ++ rel) = smallListing.shapeAt rel := by
  have sorted : smallListing.Sorted := by
    refine ⟨?_, ⟨fun _ => nofun, trivial⟩, fun _ => nofun, trivial⟩
    decide
  have built : (smallUploader (fun _ => none)).buildTree ["w", "out"] ⟨[], 0⟩
      = .ok ({ root := smallRoot, children := [smallSub] }, ⟨lastDigitHash [2], 1⟩)
        smallBlobs := rfl
  have given : ∀ digest data, (digest, data) ∈ smallBlobs.puts →
      ∃ inode, smallHost.blobs digest = some inode ∧ inode < smallHost.volume.next
        ∧ (smallHost.volume.files inode).data = data := by
    intro digest data held
    simp only [smallBlobs, List.mem_cons, Prod.mk.injEq, List.not_mem_nil, or_false] at held
    rcases held with ⟨rfl, rfl⟩ | ⟨rfl, rfl⟩ | ⟨rfl, rfl⟩
    · exact ⟨2, by decide, by decide, rfl⟩
    · exact ⟨1, by decide, by decide, rfl⟩
    · exact ⟨0, by decide, by decide, rfl⟩
  have collisionFree : ∀ digest x y, (digest, x) ∈ smallBlobs.puts →
      (digest, y) ∈ smallBlobs.puts → x = y := by
    intro digest x y first second
    obtain ⟨inode, blob, -, rfl⟩ := given digest x first
    obtain ⟨inode', blob', -, rfl⟩ := given digest y second
    obtain rfl := Option.some.inj (blob.symm.trans blob')
    rfl
  have store : ∀ digest data, smallBlobs.puts.lookup digest = some data →
      ∃ inode, smallHost.blobs digest = some inode ∧ inode < smallHost.volume.next
        ∧ (smallHost.volume.files inode).data = data := by
    intro digest data found
    obtain ⟨before, after, split, -⟩ := List.lookup_eq_some_iff.mp found
    exact given digest data (split ▸ List.mem_append_right _ List.mem_cons_self)
  have empty : ∀ name, smallHost.volume.entries (["t"] ++ [name]) = none := by
    intro name
    simp [smallHost, smallVolume, Volume.add, Volume.bare]
  have shared : smallStager.toEncoding = (smallUploader (fun _ => none)).toEncoding := rfl
  obtain ⟨back, -, -⟩ := stageDirectory_inverts_buildTree shared smallEncoding_inverse rfl sorted
    built collisionFree store rfl empty
  obtain ⟨host', staged, shown⟩ := back 2 (by decide)
  exact ⟨_, _, host', built, staged, shown⟩

end GoREgo.Worker
