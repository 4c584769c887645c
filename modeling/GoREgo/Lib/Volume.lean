import GoREgo.Lib.Paths
import GoREgo.Lib.Program
import Mathlib.Data.List.Induction
import Mathlib.Data.String.Basic
import Mathlib.Logic.Function.Basic

/-! A volume of directories, files and symbolic links, with the system calls that make new
entries. Files are inodes, so that links share what they hold.
-/

namespace GoREgo.Lib

/-- What stands at each path, the contents of each inode and the next free one. Every entry is in
a directory, under a name that a directory can hold.
-/
structure Volume (ι : Type) where
  entries : Path → Option (Entry Nat)
  files : Nat → ι
  next : Nat
  rooted : entries [] = some .dir
  tree : ∀ dir name entry, entries (dir ++ [name]) = some entry →
    entries dir = some .dir ∧ Path.Normal name
  allocated : ∀ path inode, entries path = some (.file inode) → inode < next

structure OsError where
  op : String
  path : String
  errno : Errno
deriving DecidableEq, Repr

def OsError.text (err : OsError) : String :=
  err.op ++ " " ++ err.path ++ ": " ++ err.errno.text

namespace Volume

variable {ι : Type}

/-- A volume with no entries, and inodes that have no name. -/
def bare (files : Nat → ι) (next : Nat) : Volume ι where
  entries path := if path = [] then some .dir else none
  files := files
  next := next
  rooted := if_pos rfl
  tree dir name entry found := by
    rw [if_neg (by simp)] at found
    cases found
  allocated path inode found := by
    split at found <;> cases found

def Known (volume : Volume ι) : Entry Nat → Prop
  | .file inode => inode < volume.next
  | _ => True

instance (volume : Volume ι) (entry : Entry Nat) : Decidable (volume.Known entry) := by
  unfold Known
  split <;> infer_instance

/-- A new entry in a directory, under a name that is free. -/
def add (volume : Volume ι) (dir : Path) (name : String) (entry : Entry Nat)
    (isDir : volume.entries dir = some .dir) (normal : Path.Normal name)
    (free : volume.entries (dir ++ [name]) = none) (known : volume.Known entry)
    : Volume ι :=
  { volume with
    entries := Function.update volume.entries (dir ++ [name]) (some entry)
    rooted := by
      rw [Function.update_of_ne (by simp)]
      exact volume.rooted
    tree := by
      intro dir' name' entry' found
      by_cases same : dir' ++ [name'] = dir ++ [name]
      · obtain ⟨rfl, sameName⟩ := List.append_inj' same rfl
        obtain rfl := List.singleton_inj.mp sameName
        rw [Function.update_of_ne (by simp)]
        exact ⟨isDir, normal⟩
      · rw [Function.update_of_ne same] at found
        obtain ⟨parent, normal'⟩ := volume.tree dir' name' entry' found
        have other : dir' ≠ dir ++ [name] := by
          rintro rfl
          rw [free] at parent
          cases parent
        rw [Function.update_of_ne other]
        exact ⟨parent, normal'⟩
    allocated := by
      intro path inode found
      by_cases same : path = dir ++ [name]
      · subst same
        rw [Function.update_self] at found
        obtain rfl := Option.some.inj found
        exact known
      · rw [Function.update_of_ne same] at found
        exact volume.allocated path inode found }

def alloc (volume : Volume ι) (content : ι) : Volume ι :=
  { volume with
    files := Function.update volume.files volume.next content
    next := volume.next + 1
    allocated := fun path inode found => Nat.lt_succ_of_lt (volume.allocated path inode found) }

def modify (volume : Volume ι) (inode : Nat) (change : ι → ι) : Volume ι :=
  { volume with files := Function.update volume.files inode (change (volume.files inode)) }

abbrev SysM (ι : Type) := EStateM OsError (Volume ι)

/-- The entry at a path, through all links. -/
def stat (volume : Volume ι) (path : Path) : Except Errno (Entry Nat) :=
  match Walk.follow volume.entries path with
  | .found place =>
      match volume.entries place with
      | some entry => .ok entry
      | none => .error .notExist
  | .missing _ _ => .error .notExist
  | .link _ _ _ => .error .loop
  | .failed errno => .error errno

/-- The directory in which a path names an entry. The last component is not followed. -/
def parent (volume : Volume ι) (path : Path) : Except Errno (Path × String) :=
  match path.getLast? with
  | none => .error .exist
  | some name =>
      match Walk.follow volume.entries path.dropLast with
      | .found dir => .ok (dir, name)
      | .missing _ _ => .error .notExist
      | .link _ _ _ => .error .loop
      | .failed errno => .error errno

/-- A new entry at a path. The error has the text of what the call was given. -/
def insert (op given : String) (path : Path) (entry : Entry Nat) : SysM ι Unit := fun volume =>
  match volume.parent path with
  | .error errno => .error ⟨op, given, errno⟩ volume
  | .ok (dir, name) =>
      if isDir : volume.entries dir = some .dir then
        if normal : Path.Normal name then
          if free : volume.entries (dir ++ [name]) = none then
            if known : volume.Known entry then
              .ok () (volume.add dir name entry isDir normal free known)
            else
              .error ⟨op, given, .notExist⟩ volume
          else
            .error ⟨op, given, .exist⟩ volume
        else
          .error ⟨op, given, .invalid⟩ volume
      else
        .error ⟨op, given, .notDir⟩ volume

def mkdir (path : Path) : SysM ι Unit :=
  insert "mkdir" path.text path .dir

/-- `symlink`, which makes no link to the empty path. -/
def symlink (target : String) (path : Path) : SysM ι Unit :=
  if target = "" then
    throw ⟨"symlink", target ++ " " ++ path.text, .notExist⟩
  else
    insert "symlink" (target ++ " " ++ path.text) path (.symlink target)

/-- `link`: a second name for an inode. -/
def link (inode : Nat) (path : Path) : SysM ι Unit :=
  insert "link" path.text path (.file inode)

/-- `MkdirAll` of the path whose names are given from the last one up. -/
def mkdirAllUp : List String → SysM ι Unit
  | [] => pure ()
  | name :: up => fun volume =>
      let path : Path := (name :: up).reverse
      match volume.stat path with
      | .ok .dir => .ok () volume
      | .ok _ => .error ⟨"mkdir", path.text, .notDir⟩ volume
      | .error _ => (mkdirAllUp up >>= fun _ => mkdir path) volume

/-- `os.MkdirAll`: the directory at a path with all directories above it. -/
def mkdirAll (path : Path) : SysM ι Unit :=
  mkdirAllUp path.reverse

/-- `MkdirAll` is a number of `Mkdir` calls at the path and above it: what those keep, it keeps. By
induction on the path.
-/
theorem mkdirAll_ends {volume : Volume ι} {path : Path} {holds : Volume ι → Prop}
    (each : ∀ place volume, place <+: path → holds volume →
      Ends (mkdir place) (fun _ volume' => holds volume') (fun _ volume' => holds volume') volume)
    (start : holds volume)
    : Ends (mkdirAll path) (fun _ volume' => holds volume') (fun _ volume' => holds volume')
        volume := by
  obtain ⟨up, rfl⟩ : ∃ up : List String, path = up.reverse := ⟨path.reverse, by simp⟩
  rw [mkdirAll, List.reverse_reverse]
  induction up with
  | nil => exact Ends.pure start
  | cons name up ih =>
      have upper := ih (fun place volume above => each place volume
        (above.trans (by rw [List.reverse_cons]; exact List.prefix_append _ _)))
      have last : Ends (mkdirAllUp up >>= fun _ => mkdir (name :: up).reverse)
          (fun _ volume' => holds volume') (fun _ volume' => holds volume') volume :=
        Ends.bind (upper.imp (fun _ volume' kept => each _ volume' (List.prefix_refl _) kept))
      unfold Ends mkdirAllUp
      dsimp only
      cases volume.stat (name :: up).reverse with
      | error errno => exact last
      | ok entry => cases entry <;> exact start

/-- The same inodes, with the same contents. -/
def SameFiles (volume volume' : Volume ι) : Prop :=
  volume'.files = volume.files ∧ volume'.next = volume.next

theorem insert_sameFiles (op given : String) (path : Path) (entry : Entry Nat) (volume : Volume ι)
    : Ends (insert op given path entry) (fun _ volume' => volume.SameFiles volume')
        (fun _ volume' => volume.SameFiles volume') volume := by
  unfold Ends insert
  cases volume.parent path with
  | error errno => exact ⟨rfl, rfl⟩
  | ok parts =>
      dsimp only
      split_ifs <;> exact ⟨rfl, rfl⟩

theorem mkdirAll_sameFiles (path : Path) (volume : Volume ι)
    : Ends (mkdirAll path) (fun _ volume' => volume.SameFiles volume')
        (fun _ volume' => volume.SameFiles volume') volume := by
  refine mkdirAll_ends (fun place volume₁ _ same => ?_) ⟨rfl, rfl⟩
  have joined {volume₂ : Volume ι} (more : volume₁.SameFiles volume₂) : volume.SameFiles volume₂ :=
    ⟨more.1.trans same.1, more.2.trans same.2⟩
  exact (insert_sameFiles _ _ _ _ volume₁).mono (fun _ _ => joined) (fun _ _ => joined)

/-- `O_CREATE|O_TRUNC`: a file that exists is truncated, also through a link, and otherwise one
is made. The inode is open then.
-/
def openTrunc (path : Path) (created : ι) (truncate : ι → ι) : SysM ι Nat := fun volume =>
  match Walk.follow volume.entries path with
  | .found place =>
      match volume.entries place with
      | some (.file inode) => .ok inode (volume.modify inode truncate)
      | _ => .error ⟨"open", path.text, .isDir⟩ volume
  | .missing dir name =>
      if isDir : volume.entries dir = some .dir then
        if normal : Path.Normal name then
          if free : volume.entries (dir ++ [name]) = none then
            .ok volume.next
              ((volume.alloc created).add dir name (.file volume.next) isDir normal free
                (Nat.lt_succ_self _))
          else
            .error ⟨"open", path.text, .exist⟩ volume
        else
          .error ⟨"open", path.text, .invalid⟩ volume
      else
        .error ⟨"open", path.text, .notDir⟩ volume
  | .link _ _ _ => .error ⟨"open", path.text, .loop⟩ volume
  | .failed errno => .error ⟨"open", path.text, errno⟩ volume

/-- What an `openTrunc` that works does to the inodes: it truncates one that has a name, or makes
one.
-/
theorem openTrunc_files {path : Path} {created : ι} {truncate : ι → ι} {volume volume' : Volume ι}
    {inode : Nat} (opened : openTrunc path created truncate volume = .ok inode volume')
    : inode < volume.next ∧ volume'.next = volume.next
        ∧ volume'.files = Function.update volume.files inode (truncate (volume.files inode))
      ∨ inode = volume.next ∧ volume'.next = volume.next + 1
        ∧ volume'.files = Function.update volume.files inode created := by
  unfold openTrunc at opened
  split at opened
  next place _ =>
    split at opened
    next there =>
      cases opened
      exact .inl ⟨volume.allocated place _ there, rfl, rfl⟩
    next => cases opened
  next dir name _ =>
    split_ifs at opened
    cases opened
    exact .inr ⟨rfl, rfl, rfl⟩
  next => cases opened
  next => cases opened

variable {volume volume' : Volume ι} {dir path : Path} {name : String} {entry : Entry Nat}

/-- Above an entry there are directories under normal names, by induction on the names between. -/
theorem above_entry (dir : Path) (name : String) (below : List String)
    (found : volume.entries (dir ++ name :: below) = some entry)
    : Path.Normal name ∧ (below ≠ [] → volume.entries (dir ++ [name]) = some .dir) := by
  induction below using List.reverseRecOn generalizing entry with
  | nil => exact ⟨(volume.tree dir name entry found).2, fun nonempty => absurd rfl nonempty⟩
  | append_singleton below last ih =>
      have split : dir ++ name :: (below ++ [last]) = (dir ++ name :: below) ++ [last] := by simp
      rw [split] at found
      have upper := (volume.tree _ last entry found).1
      obtain ⟨normal, isDir⟩ := ih upper
      refine ⟨normal, fun _ => ?_⟩
      cases below with
      | nil => exact upper
      | cons _ _ => exact isDir (List.cons_ne_nil _ _)

theorem dir_of_below {below : List String}
    (found : volume.entries (path ++ name :: below) = some entry)
    : volume.entries path = some .dir := by
  rcases List.eq_nil_or_concat path with rfl | ⟨dir, last, rfl⟩
  · exact volume.rooted
  · rw [List.concat_eq_append, List.append_assoc, List.singleton_append] at found
    rw [List.concat_eq_append]
    exact (above_entry dir last (name :: below) found).2 nofun

theorem normal_of_entry (found : volume.entries path = some entry)
    : ∀ name ∈ path, Path.Normal name := by
  intro name held
  obtain ⟨before, after, rfl⟩ := List.append_of_mem held
  exact (above_entry before name after found).1

theorem dirs_above (isDir : volume.entries path = some .dir) (before : Path) (name : String)
    (after : List String) (split : path = before ++ name :: after)
    : volume.entries ([] ++ before ++ [name]) = some .dir := by
  subst split
  cases after with
  | nil => exact isDir
  | cons next after => exact (above_entry before name (next :: after) isDir).2 nofun

theorem follow_dir (isDir : volume.entries path = some .dir)
    : Walk.follow volume.entries path = .found path := by
  refine Walk.resolve_of_descend ?_ (fun _ _ _ => nofun)
  have walked := Walk.descend_dirs [] path [] (normal_of_entry isDir) (dirs_above isDir)
  simpa [Walk.descend] using walked

theorem parent_of_dir (isDir : volume.entries dir = some .dir)
    : volume.parent (dir ++ [name]) = .ok (dir, name) := by
  simp only [parent, List.getLast?_concat, List.dropLast_concat, follow_dir isDir]

theorem follow_free (isDir : volume.entries dir = some .dir) (normal : Path.Normal name)
    (free : volume.entries (dir ++ [name]) = none)
    : Walk.follow volume.entries (dir ++ [name]) = .missing dir name := by
  refine Walk.resolve_of_descend ?_ (fun _ _ _ => nofun)
  have walked := Walk.descend_dirs [] dir [name] (normal_of_entry isDir) (dirs_above isDir)
  obtain ⟨notEmpty, notDot, notUp, -⟩ := normal
  rw [walked, List.nil_append, Walk.descend, if_neg (not_or.mpr ⟨notEmpty, notDot⟩),
    if_neg notUp, free]
  rfl

section Works

variable (isDir : volume.entries dir = some .dir) (normal : Path.Normal name)
  (free : volume.entries (dir ++ [name]) = none)

theorem insert_in_dir (op given : String) (known : volume.Known entry)
    : insert op given (dir ++ [name]) entry volume
      = .ok () (volume.add dir name entry isDir normal free known) := by
  simp only [insert, parent_of_dir isDir, dif_pos isDir, dif_pos normal, dif_pos free,
    dif_pos known]

theorem mkdirAll_of_dir (isDir : volume.entries path = some .dir)
    : mkdirAll path volume = .ok () volume := by
  have found : volume.stat path = .ok .dir := by
    simp only [stat, follow_dir isDir, isDir]
  unfold mkdirAll
  cases reversed : path.reverse with
  | nil => rfl
  | cons name up =>
      have same : path = (name :: up).reverse := by rw [← reversed, List.reverse_reverse]
      rw [mkdirAllUp]
      dsimp only
      rw [← same, found]

theorem mkdirAll_snoc {volume₁ : Volume ι} {errno : Errno}
    (gap : volume.stat (dir ++ [name]) = .error errno)
    (upper : mkdirAll dir volume = .ok () volume₁)
    : mkdirAll (dir ++ [name]) volume = mkdir (dir ++ [name]) volume₁ := by
  have same : (name :: dir.reverse).reverse = dir ++ [name] := by simp
  rw [mkdirAll, List.reverse_concat, mkdirAllUp]
  dsimp only
  rw [same, gap]
  change EStateM.bind (mkdirAllUp dir.reverse) (fun _ => mkdir (dir ++ [name])) volume = _
  rw [mkdirAll] at upper
  rw [EStateM.bind, upper]

theorem mkdirAll_in_dir
    : mkdirAll (dir ++ [name]) volume
      = .ok () (volume.add dir name .dir isDir normal free trivial) := by
  have missing : volume.stat (dir ++ [name]) = .error .notExist := by
    simp only [stat, follow_free isDir normal free]
  rw [mkdirAll_snoc missing (mkdirAll_of_dir isDir)]
  exact insert_in_dir isDir normal free "mkdir" _ (show volume.Known .dir from trivial)

theorem openTrunc_in_dir (created : ι) (truncate : ι → ι)
    : openTrunc (dir ++ [name]) created truncate volume
      = .ok volume.next ((volume.alloc created).add dir name (.file volume.next) isDir normal free
          (Nat.lt_succ_self _)) := by
  simp only [openTrunc, follow_free isDir normal free, dif_pos isDir, dif_pos normal,
    dif_pos free]

end Works

end Volume

end GoREgo.Lib
