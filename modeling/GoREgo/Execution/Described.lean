import GoREgo.Execution.Outputs
import Mathlib.Data.List.Perm.Basic

/-! What `buildTree` makes of a directory: the messages describe the listing entry by entry, list
their nodes in the order of `os.ReadDir`, and depend on nothing but the listing.
-/

namespace GoREgo.Worker

open Lib

namespace Listing

def toList : Listing → List (String × Node)
  | .nil => []
  | .file name held rest => (name.text, .file held) :: rest.toList
  | .symlink name target rest => (name.text, .symlink target) :: rest.toList
  | .dir name sub rest => (name.text, .dir sub) :: rest.toList

def names (listing : Listing) : List String :=
  listing.toList.map Prod.fst

/-- `os.ReadDir` sorts the entries by name, in the directory and in all below it. -/
def Sorted : Listing → Prop
  | .nil => True
  | .file name _ rest => (∀ other ∈ rest.names, name.text < other) ∧ rest.Sorted
  | .symlink name _ rest => (∀ other ∈ rest.names, name.text < other) ∧ rest.Sorted
  | .dir name sub rest =>
      (∀ other ∈ rest.names, name.text < other) ∧ sub.Sorted ∧ rest.Sorted

def depth : Listing → Nat
  | .nil => 0
  | .file _ _ rest => rest.depth
  | .symlink _ _ rest => rest.depth
  | .dir _ sub rest => max (sub.depth + 1) rest.depth

variable {listing sub : Listing} {name : String} {node : Node}

theorem mem_of_find (found : listing.find name = some node) : (name, node) ∈ listing.toList := by
  induction listing with
  | nil => cases found
  | file other held rest ih | symlink other held rest ih | dir other held rest _ ih =>
      simp only [find] at found
      split at found
      next same =>
        obtain rfl := Option.some.inj found
        subst same
        exact List.mem_cons_self
      next => exact List.mem_cons_of_mem _ (ih found)

theorem Sorted.names (sorted : listing.Sorted) : listing.names.Pairwise (· < ·) := by
  induction listing with
  | nil => exact .nil
  | file name held rest ih | symlink name held rest ih =>
      exact .cons sorted.1 (ih sorted.2)
  | dir name sub rest _ ih => exact .cons sorted.1 (ih sorted.2.2)

theorem Sorted.nodup (sorted : listing.Sorted) : listing.names.Nodup := by
  refine sorted.names.imp ?_
  rintro name other before rfl
  exact String.lt_irrefl _ before

theorem mem_names (held : (name, node) ∈ listing.toList) : name ∈ listing.names :=
  List.mem_map.mpr ⟨_, held, rfl⟩

theorem find_of_mem (distinct : listing.names.Nodup) (held : (name, node) ∈ listing.toList)
    : listing.find name = some node := by
  induction listing with
  | nil => cases held
  | file other held' rest ih | symlink other held' rest ih | dir other held' rest _ ih =>
      obtain ⟨fresh, distinct⟩ := List.nodup_cons.mp distinct
      simp only [find]
      rcases List.mem_cons.mp held with same | held
      · obtain ⟨rfl, rfl⟩ := Prod.mk.inj same
        rw [if_pos rfl]
      · have other : other.text ≠ name := by
          rintro rfl
          exact fresh (mem_names held)
        rw [if_neg other]
        exact ih distinct held

theorem find_eq_none (absent : name ∉ listing.names) : listing.find name = none := by
  cases found : listing.find name with
  | none => rfl
  | some node => exact absurd (mem_names (mem_of_find found)) absent

theorem normal_of_mem (held : (name, node) ∈ listing.toList) : Path.Normal name := by
  induction listing with
  | nil => cases held
  | file other held' rest ih | symlink other held' rest ih | dir other held' rest _ ih =>
      rcases List.mem_cons.mp held with same | held
      · obtain ⟨rfl, -⟩ := Prod.mk.inj same
        exact other.normal
      · exact ih held

/-- A subdirectory is less deep, and sorted if the whole is. -/
theorem below_of_mem (held : (name, .dir sub) ∈ listing.toList)
    : sub.depth < listing.depth ∧ (listing.Sorted → sub.Sorted) := by
  induction listing with
  | nil => cases held
  | file other held' rest ih | symlink other held' rest ih =>
      rcases List.mem_cons.mp held with same | held
      · cases (Prod.mk.inj same).2
      · exact ⟨(ih held).1, fun sorted => (ih held).2 sorted.2⟩
  | dir other sub' rest _ ih =>
      simp only [depth]
      rcases List.mem_cons.mp held with same | held
      · obtain rfl := Node.dir.inj (Prod.mk.inj same).2
        exact ⟨by omega, fun sorted => sorted.2.1⟩
      · obtain ⟨lower, below⟩ := ih held
        exact ⟨by omega, fun sorted => below sorted.2.2⟩

def uncons : Listing → Option (FileName × Node × Listing)
  | .nil => none
  | .file name held rest => some (name, .file held, rest)
  | .symlink name target rest => some (name, .symlink target, rest)
  | .dir name sub rest => some (name, .dir sub, rest)

variable {listing' rest rest' : Listing} {head : FileName}

theorem eq_of_uncons (same : listing.uncons = listing'.uncons) : listing = listing' := by
  cases listing <;> cases listing' <;> simp_all [uncons]

theorem toList_of_uncons (first : listing.uncons = some (head, node, rest))
    : listing.toList = (head.text, node) :: rest.toList := by
  cases listing <;> simp only [uncons, reduceCtorEq, Option.some.injEq, Prod.mk.injEq] at first
  all_goals
    obtain ⟨rfl, rfl, rfl⟩ := first
    rfl

theorem find_of_uncons (first : listing.uncons = some (head, node, rest)) (name : String)
    : listing.find name = if head.text = name then some node else rest.find name := by
  cases listing <;> simp only [uncons, reduceCtorEq, Option.some.injEq, Prod.mk.injEq] at first
  all_goals
    obtain ⟨rfl, rfl, rfl⟩ := first
    rfl

theorem Sorted.of_uncons (sorted : listing.Sorted)
    (first : listing.uncons = some (head, node, rest))
    : (∀ other ∈ rest.names, head.text < other) ∧ rest.Sorted := by
  cases listing <;> simp only [uncons, reduceCtorEq, Option.some.injEq, Prod.mk.injEq] at first
  all_goals obtain ⟨rfl, rfl, rfl⟩ := first
  case file | symlink => exact sorted
  case dir => exact ⟨sorted.1, sorted.2.2⟩

def entryBelow : Option Node → Path → Option (Entry File)
  | some (.dir sub), rel => sub.entryAt rel
  | some (.file held), [] => some (.file held)
  | some (.symlink target), [] => some (.symlink target.text)
  | _, _ => none

theorem entryAt_cons (listing : Listing) (name : String) (rel : Path)
    : listing.entryAt (name :: rel) = entryBelow (listing.find name) rel := by
  unfold entryAt
  rw [nodeAt]
  cases listing.find name with
  | none => cases rel <;> rfl
  | some node =>
      cases node with
      | dir sub => rfl
      | file held => cases rel <;> rfl
      | symlink target => cases rel <;> rfl

def SameTree (listing listing' : Listing) : Prop :=
  ∀ path, listing.entryAt path = listing'.entryAt path

theorem SameTree.find (same : SameTree listing listing') (name : String) (rel : Path)
    : entryBelow (listing.find name) rel = entryBelow (listing'.find name) rel := by
  rw [← entryAt_cons, ← entryAt_cons]
  exact same (name :: rel)

theorem sameTree_of_find
    (same : ∀ name rel, entryBelow (listing.find name) rel = entryBelow (listing'.find name) rel)
    : SameTree listing listing' := by
  intro path
  cases path with
  | nil => rfl
  | cons name rel =>
      rw [entryAt_cons, entryAt_cons]
      exact same name rel

theorem mem_names_iff : name ∈ listing.names ↔ entryBelow (listing.find name) [] ≠ none := by
  constructor
  · intro held
    have found : ∃ node, listing.find name = some node := by
      induction listing with
      | nil => cases held
      | file other _ rest ih | symlink other _ rest ih | dir other _ rest _ ih =>
          simp only [find]
          by_cases same : other.text = name
          · exact ⟨_, if_pos same⟩
          · rw [if_neg same]
            exact ih ((List.mem_cons.mp held).resolve_left (Ne.symm same))
    obtain ⟨node, found⟩ := found
    rw [found]
    cases node <;> exact nofun
  · intro seen
    by_contra absent
    rw [find_eq_none absent] at seen
    exact seen rfl

theorem SameTree.symm (same : SameTree listing listing') : SameTree listing' listing :=
  fun path => (same path).symm

theorem SameTree.mem_names (same : SameTree listing listing') (held : name ∈ listing.names)
    : name ∈ listing'.names := by
  rw [mem_names_iff] at held ⊢
  rwa [← same.find]

/-- The first names are the same: each is not after the other. -/
theorem SameTree.head_eq {head' : FileName} {node' : Node} (same : SameTree listing listing')
    (sorted : listing.Sorted) (sorted' : listing'.Sorted)
    (first : listing.uncons = some (head, node, rest))
    (first' : listing'.uncons = some (head', node', rest'))
    : head = head' := by
  have names : listing.names = head.text :: rest.names := by
    rw [Listing.names, toList_of_uncons first]
    rfl
  have names' : listing'.names = head'.text :: rest'.names := by
    rw [Listing.names, toList_of_uncons first']
    rfl
  have here : head.text ∈ listing'.names := same.mem_names (names ▸ List.mem_cons_self)
  have there : head'.text ∈ listing.names := same.symm.mem_names (names' ▸ List.mem_cons_self)
  rw [names'] at here
  rw [names] at there
  have texts : head.text = head'.text := by
    rcases List.mem_cons.mp here with texts | later
    · exact texts
    · rcases List.mem_cons.mp there with texts | later'
      · exact texts.symm
      · exact absurd ((sorted.of_uncons first).1 _ later')
          (String.lt_asymm ((sorted'.of_uncons first').1 _ later))
  cases head
  cases head'
  simpa using texts

theorem SameTree.tail {node' : Node} (same : SameTree listing listing')
    (sorted : listing.Sorted) (sorted' : listing'.Sorted)
    (first : listing.uncons = some (head, node, rest))
    (first' : listing'.uncons = some (head, node', rest'))
    : SameTree rest rest' := by
  refine sameTree_of_find ?_
  intro name rel
  by_cases again : head.text = name
  · subst again
    have fresh : head.text ∉ rest.names :=
      fun held => String.lt_irrefl _ ((sorted.of_uncons first).1 _ held)
    have fresh' : head.text ∉ rest'.names :=
      fun held => String.lt_irrefl _ ((sorted'.of_uncons first').1 _ held)
    rw [find_eq_none fresh, find_eq_none fresh']
  · have seen := same.find name rel
    rwa [find_of_uncons first, find_of_uncons first', if_neg again, if_neg again] at seen

theorem SameTree.first {node' : Node} (same : SameTree listing listing')
    (first : listing.uncons = some (head, node, rest))
    (first' : listing'.uncons = some (head, node', rest')) (rel : Path)
    : entryBelow (some node) rel = entryBelow (some node') rel := by
  have seen := same.find head.text rel
  rwa [find_of_uncons first, find_of_uncons first', if_pos rfl, if_pos rfl] at seen

theorem SameTree.cons (same : SameTree listing listing') (sorted : listing.Sorted)
    (sorted' : listing'.Sorted) (first : listing.uncons = some (head, node, rest))
    : ∃ node' rest', listing'.uncons = some (head, node', rest') ∧ SameTree rest rest'
        ∧ rest'.Sorted ∧ ∀ rel, entryBelow (some node) rel = entryBelow (some node') rel := by
  cases first' : listing'.uncons with
  | none =>
      obtain rfl : listing' = .nil := eq_of_uncons first'
      have held : head.text ∈ listing.names := by
        rw [Listing.names, toList_of_uncons first]
        exact List.mem_cons_self
      cases same.mem_names held
  | some entry =>
      obtain ⟨head', node', rest'⟩ := entry
      obtain rfl := same.head_eq sorted sorted' first first'
      exact ⟨node', rest', rfl, same.tail sorted sorted' first first',
        (sorted'.of_uncons first').2, same.first first first'⟩

/-- Sorted directories that look the same are the same, by induction on one of them. -/
theorem SameTree.eq (same : SameTree listing listing') (sorted : listing.Sorted)
    (sorted' : listing'.Sorted)
    : listing = listing' := by
  induction listing generalizing listing' with
  | nil =>
      cases first' : listing'.uncons with
      | none => exact (eq_of_uncons first').symm
      | some entry =>
          obtain ⟨_, _, first, -⟩ := same.symm.cons sorted' sorted first'
          cases first
  | file name held rest ih =>
      obtain ⟨node', rest', first', others, sortedRest, seen⟩ := same.cons sorted sorted' rfl
      obtain rfl := ih others sorted.2 sortedRest
      have here := seen []
      cases node' with
      | dir sub => cases here
      | symlink target => cases here
      | file held' =>
          obtain rfl : held = held' := by simpa [entryBelow] using here
          exact eq_of_uncons first'.symm
  | symlink name target rest ih =>
      obtain ⟨node', rest', first', others, sortedRest, seen⟩ := same.cons sorted sorted' rfl
      obtain rfl := ih others sorted.2 sortedRest
      have here := seen []
      cases node' with
      | dir sub => cases here
      | file held => cases here
      | symlink target' =>
          obtain rfl : target = target' := by
            cases target
            cases target'
            simpa [entryBelow] using here
          exact eq_of_uncons first'.symm
  | dir name sub rest ihSub ih =>
      obtain ⟨node', rest', first', others, sortedRest, seen⟩ := same.cons sorted sorted' rfl
      obtain rfl := ih others sorted.2.2 sortedRest
      have here := seen []
      cases node' with
      | file held => cases here
      | symlink target => cases here
      | dir sub' =>
          have listed : (name.text, .dir sub') ∈ listing'.toList := by
            rw [toList_of_uncons first']
            exact List.mem_cons_self
          obtain rfl := ihSub seen sorted.2.1 ((below_of_mem listed).2 sorted')
          exact eq_of_uncons first'.symm

end Listing

def Directory.append (dir more : Directory) : Directory where
  files := dir.files ++ more.files
  directories := dir.directories ++ more.directories
  symlinks := dir.symlinks ++ more.symlinks

def fileNode (encoding : Encoding) (name : FileName) (file : File) : FileNode where
  name := name.text
  digest := some (encoding.newFromBlob file.data)
  isExecutable := file.executable

def symlinkNode (name : FileName) (target : LinkTarget) : SymlinkNode where
  name := name.text
  target := target.text

def directoryNode (encoding : Encoding) (name : FileName) (data : Bytes) : DirectoryNode where
  name := name.text
  digest := some (encoding.newFromBlob data)

/-- A message describes a listing: it has a node for each entry, and the store was given the
contents of the files and the messages of the subdirectories.
-/
inductive Describes (encoding : Encoding) (s : Blobs) : Listing → Directory → Prop
  | nil : Describes encoding s .nil .empty
  | file {name file rest dir}
    (stored : (encoding.newFromBlob file.data, file.data) ∈ s.puts)
    (others : Describes encoding s rest dir)
    : Describes encoding s (.file name file rest)
        { dir with files := fileNode encoding name file :: dir.files }
  | symlink {name target rest dir} (others : Describes encoding s rest dir)
    : Describes encoding s (.symlink name target rest)
        { dir with symlinks := symlinkNode name target :: dir.symlinks }
  | dir {name sub subdir data rest dir} (inner : Describes encoding s sub subdir)
    (marshal : encoding.marshalDirectory subdir = .ok data)
    (stored : (encoding.newFromBlob data, data) ∈ s.puts)
    (others : Describes encoding s rest dir)
    : Describes encoding s (.dir name sub rest)
        { dir with directories := directoryNode encoding name data :: dir.directories }

namespace Describes

variable {encoding : Encoding} {s s' : Blobs} {listing : Listing} {dir dir' : Directory}

theorem mono (describes : Describes encoding s listing dir)
    (kept : ∀ put ∈ s.puts, put ∈ s'.puts)
    : Describes encoding s' listing dir := by
  induction describes with
  | nil => exact .nil
  | file stored _ ih => exact .file (kept _ stored) ih
  | symlink _ ih => exact .symlink ih
  | dir _ marshal stored _ ihInner ih => exact .dir ihInner marshal (kept _ stored) ih

/-- A listing has one message, by induction on how it is described: a subdirectory has one
marshalled text.
-/
theorem unique (describes : Describes encoding s listing dir)
    (again : Describes encoding s' listing dir')
    : dir = dir' := by
  induction describes generalizing dir' with
  | nil =>
      cases again
      rfl
  | file _ _ ih =>
      cases again with
      | file _ others => rw [ih others]
  | symlink _ ih =>
      cases again with
      | symlink others => rw [ih others]
  | dir _ marshal _ _ ihInner ih =>
      cases again with
      | dir inner marshal' _ others =>
          rw [ihInner inner, marshal'] at marshal
          rw [ih others, Except.ok.inj marshal]

theorem names_perm (describes : Describes encoding s listing dir)
    : (dir.files.map FileNode.name ++ (dir.symlinks.map SymlinkNode.name
        ++ dir.directories.map DirectoryNode.name)).Perm listing.names := by
  induction describes with
  | nil => exact .nil
  | file _ _ ih => exact ih.cons _
  | symlink _ ih => exact List.perm_middle.trans (ih.cons _)
  | dir _ _ _ _ _ ih =>
      rw [List.map_cons, ← List.append_assoc]
      refine List.perm_middle.trans (.cons _ ?_)
      rwa [List.append_assoc]

theorem sublists (describes : Describes encoding s listing dir)
    : (dir.files.map FileNode.name).Sublist listing.names
      ∧ (dir.directories.map DirectoryNode.name).Sublist listing.names
      ∧ (dir.symlinks.map SymlinkNode.name).Sublist listing.names := by
  induction describes with
  | nil => exact ⟨.slnil, .slnil, .slnil⟩
  | file _ _ ih => exact ⟨ih.1.cons_cons _, ih.2.1.cons _, ih.2.2.cons _⟩
  | symlink _ ih => exact ⟨ih.1.cons _, ih.2.1.cons _, ih.2.2.cons_cons _⟩
  | dir _ _ _ _ _ ih => exact ⟨ih.1.cons _, ih.2.1.cons_cons _, ih.2.2.cons _⟩

theorem file_mem (describes : Describes encoding s listing dir) {node : FileNode}
    (held : node ∈ dir.files)
    : ∃ file, (node.name, .file file) ∈ listing.toList
        ∧ node.digest = some (encoding.newFromBlob file.data)
        ∧ (encoding.newFromBlob file.data, file.data) ∈ s.puts := by
  induction describes with
  | nil => cases held
  | file stored _ ih =>
      rcases List.mem_cons.mp held with rfl | held
      · exact ⟨_, List.mem_cons_self, rfl, stored⟩
      · obtain ⟨file, listed, rest⟩ := ih held
        exact ⟨file, List.mem_cons_of_mem _ listed, rest⟩
  | symlink _ ih | dir _ _ _ _ _ ih =>
      obtain ⟨file, listed, rest⟩ := ih held
      exact ⟨file, List.mem_cons_of_mem _ listed, rest⟩

theorem symlink_mem (describes : Describes encoding s listing dir) {node : SymlinkNode}
    (held : node ∈ dir.symlinks)
    : ∃ target : LinkTarget, (node.name, .symlink target) ∈ listing.toList
        ∧ node.target = target.text := by
  induction describes with
  | nil => cases held
  | symlink _ ih =>
      rcases List.mem_cons.mp held with rfl | held
      · exact ⟨_, List.mem_cons_self, rfl⟩
      · obtain ⟨target, listed, rest⟩ := ih held
        exact ⟨target, List.mem_cons_of_mem _ listed, rest⟩
  | file _ _ ih | dir _ _ _ _ _ ih =>
      obtain ⟨target, listed, rest⟩ := ih held
      exact ⟨target, List.mem_cons_of_mem _ listed, rest⟩

theorem directory_mem (describes : Describes encoding s listing dir) {node : DirectoryNode}
    (held : node ∈ dir.directories)
    : ∃ sub subdir data, (node.name, .dir sub) ∈ listing.toList
        ∧ Describes encoding s sub subdir ∧ encoding.marshalDirectory subdir = .ok data
        ∧ (encoding.newFromBlob data, data) ∈ s.puts
        ∧ node.digest = some (encoding.newFromBlob data) := by
  induction describes with
  | nil => cases held
  | dir inner marshal stored _ _ ih =>
      rcases List.mem_cons.mp held with rfl | held
      · exact ⟨_, _, _, List.mem_cons_self, inner, marshal, stored, rfl⟩
      · obtain ⟨sub, subdir, data, listed, rest⟩ := ih held
        exact ⟨sub, subdir, data, List.mem_cons_of_mem _ listed, rest⟩
  | file _ _ ih | symlink _ ih =>
      obtain ⟨sub, subdir, data, listed, rest⟩ := ih held
      exact ⟨sub, subdir, data, List.mem_cons_of_mem _ listed, rest⟩

end Describes

/-- The nodes of each kind come in strictly increasing order of their names. -/
structure Directory.Ordered (dir : Directory) : Prop where
  files : (dir.files.map FileNode.name).Pairwise (· < ·)
  directories : (dir.directories.map DirectoryNode.name).Pairwise (· < ·)
  symlinks : (dir.symlinks.map SymlinkNode.name).Pairwise (· < ·)

theorem Describes.ordered {encoding : Encoding} {s : Blobs} {listing : Listing}
    {dir : Directory} (describes : Describes encoding s listing dir) (sorted : listing.Sorted)
    : dir.Ordered :=
  ⟨sorted.names.sublist describes.sublists.1, sorted.names.sublist describes.sublists.2.1,
    sorted.names.sublist describes.sublists.2.2⟩

namespace Uploader

variable {w : Uploader} {s : Blobs} {dir : Directory} {children : List Directory}

/-- The loop over a listing adds the nodes that describe it, and children in order, by induction
on the entries.
-/
theorem buildEntries_describes (listing : Listing) (dirPath place : Path)
    (sorted : listing.Sorted) (ordered : ∀ child ∈ children, child.Ordered)
    : w.Ensures (w.blobs.buildEntries dirPath place listing dir children)
        (fun built s' => (∃ more, Describes w.toEncoding s' listing more
          ∧ built.1 = dir.append more) ∧ ∀ child ∈ built.2, child.Ordered) s := by
  induction listing generalizing dirPath place dir children s with
  | nil =>
      refine .pure ⟨⟨.empty, .nil, ?_⟩, ordered⟩
      simp [Directory.append, Directory.empty]
  | file name file rest ih =>
      refine .bind ((mode_ensures _ _).imp ?_)
      rintro _ s₀ - rfl
      refine .bind ((uploadContent_ensures _ _ file).imp ?_)
      rintro digest s₁ - ⟨rfl, stored⟩
      refine (ih dirPath place sorted.2 ordered).imp ?_
      rintro built s₂ continues ⟨⟨more, described, same⟩, ordered⟩
      refine ⟨⟨_, .file (continues.kept _ stored) described, ?_⟩, ordered⟩
      rw [same]
      simp [Directory.append, fileNode, Node.executable]
  | symlink name target rest ih =>
      refine (ih dirPath place sorted.2 ordered).imp ?_
      rintro built s₂ continues ⟨⟨more, described, same⟩, ordered⟩
      refine ⟨⟨_, .symlink described, ?_⟩, ordered⟩
      rw [same]
      simp [Directory.append, symlinkNode]
  | dir name sub rest ihSub ihRest =>
      refine .bind ((ihSub _ _ sorted.2.1 ordered).imp ?_)
      rintro ⟨subdir, children'⟩ s₁ - ⟨⟨inner, described, same⟩, ordered⟩
      obtain rfl : subdir = inner := by simpa [Directory.append, Directory.empty] using same
      refine uploadMessage_ensures (fun data s₃ later marshal stored => ?_)
      have grown : ∀ child ∈ children' ++ [subdir], child.Ordered := by
        intro child held
        rcases List.mem_append.mp held with held | held
        · exact ordered child held
        · obtain rfl := List.mem_singleton.mp held
          exact described.ordered sorted.2.1
      refine (ihRest dirPath place sorted.2.2 grown).imp ?_
      rintro built s₄ continues₄ ⟨⟨more, others, same⟩, ordered⟩
      have later := later.trans continues₄
      refine ⟨⟨_, .dir (described.mono later.kept) marshal (continues₄.kept _ stored) others, ?_⟩,
        ordered⟩
      rw [same]
      simp [Directory.append, directoryNode]

/-- What `buildTree` leaves: the root describes the listing, all messages are in order, and the
root is in the store under its digest.
-/
structure Builds (w : Uploader) (listing : Listing) (built : Tree × Digest) (s : Blobs)
    : Prop where
  describes : Describes w.toEncoding s listing built.1.root
  ordered : ∀ dir ∈ built.1.root :: built.1.children, dir.Ordered
  stored : ∃ data, w.marshalDirectory built.1.root = .ok data
    ∧ built.2 = w.newFromBlob data ∧ (built.2, data) ∈ s.puts

theorem buildTree_builds {dirPath : Path} {listing : Listing}
    (found : w.files.stat dirPath = .ok (.dir listing)) (sorted : listing.Sorted)
    : w.Ensures (w.buildTree dirPath) (w.Builds listing) s := by
  obtain ⟨place, located⟩ := Listing.locate_of_stat found
  have entries : w.blobs.buildDirectoryProto dirPath []
      = w.blobs.buildEntries dirPath place listing .empty [] := by
    simp only [Outlet.buildDirectoryProto, located]
  unfold buildTree Outlet.buildTree
  rw [entries]
  have start : ∀ child ∈ ([] : List Directory), child.Ordered := fun _ => nofun
  refine .bind ((buildEntries_describes listing dirPath place sorted start).imp ?_)
  rintro ⟨root, children⟩ s₁ - ⟨⟨more, described, same⟩, ordered⟩
  obtain rfl : root = more := by simpa [Directory.append, Directory.empty] using same
  refine uploadMessage_ensures (fun data s₃ later marshal stored => ?_)
  refine .pure ⟨described.mono later.kept, ?_, data, marshal, rfl, stored⟩
  intro dir held
  rcases List.mem_cons.mp held with rfl | held
  · exact described.ordered sorted
  · exact ordered dir held

theorem Builds.digest_eq {w w' : Uploader} {listing : Listing} {built built' : Tree × Digest}
    {s s' : Blobs} (builds : w.Builds listing built s) (again : w'.Builds listing built' s')
    (same : w.toEncoding = w'.toEncoding)
    : built.2 = built'.2 := by
  obtain ⟨data, marshal, named, -⟩ := builds.stored
  obtain ⟨data', marshal', named', -⟩ := again.stored
  have root := builds.describes.unique (same ▸ again.describes)
  rw [root, same, marshal'] at marshal
  rw [named, named', ← Except.ok.inj marshal, same]

end Uploader

end GoREgo.Worker
