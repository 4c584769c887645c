import Mathlib.Algebra.Order.Ring.Int
import Mathlib.Data.List.Basic

/-! Absolute slash-separated paths: cleaning and joining, and the walk along a path through a
tree of directories, files and symbolic links.
-/

namespace GoREgo.Lib

abbrev Path := List String

namespace Path

def text (path : Path) : String :=
  "/" ++ String.intercalate "/" path

def components (text : String) : List String :=
  (text.toList.splitOn '/').map String.ofList

def Normal (name : String) : Prop :=
  name ≠ "" ∧ name ≠ "." ∧ name ≠ ".." ∧ '/' ∉ name.toList

instance (name : String) : Decidable (Normal name) :=
  inferInstanceAs (Decidable (_ ∧ _))

/-- One component more on a clean path: `..` goes back, and not beyond the root. -/
def cleanStep (path : Path) (component : String) : Path :=
  if component = "" ∨ component = "." then
    path
  else if component = ".." then
    path.dropLast
  else
    path ++ [component]

/-- `filepath.Join` of a clean path and a text. -/
def join (base : Path) (text : String) : Path :=
  (components text).foldl cleanStep base

theorem cleanStep_normal {name : String} (normal : Normal name) (path : Path)
    : cleanStep path name = path ++ [name] := by
  obtain ⟨notEmpty, notDot, notUp, -⟩ := normal
  rw [cleanStep, if_neg (not_or.mpr ⟨notEmpty, notDot⟩), if_neg notUp]

theorem components_normal {name : String} (normal : Normal name)
    : components name = [name] := by
  rw [components, List.splitOn_eq_singleton normal.2.2.2, List.map_singleton,
    String.ofList_toList]

theorem join_normal {name : String} (normal : Normal name) (base : Path)
    : join base name = base ++ [name] := by
  rw [join, components_normal normal, List.foldl_cons, List.foldl_nil,
    cleanStep_normal normal]

end Path

inductive Entry (φ : Type)
  | dir
  | file (content : φ)
  | symlink (target : String)
deriving DecidableEq, Repr

inductive Errno
  | notExist | notDir | exist | isDir | loop | invalid
deriving DecidableEq, Repr

def Errno.text : Errno → String
  | .notExist => "no such file or directory"
  | .notDir => "not a directory"
  | .exist => "file exists"
  | .isDir => "is a directory"
  | .loop => "too many levels of symbolic links"
  | .invalid => "invalid argument"

/-- Where a walk without links ends: at a place, before a free name in a directory, at a link
with the components behind it, or with an error.
-/
inductive Walk
  | found (path : Path)
  | missing (dir : Path) (name : String)
  | link (dir : Path) (target : String) (rest : List String)
  | failed (errno : Errno)
deriving DecidableEq, Repr

namespace Walk

variable {φ : Type} (look : Path → Option (Entry φ))

/-- The walk up to the first link. -/
def descend : Path → List String → Walk
  | dir, [] => .found dir
  | dir, component :: rest =>
      if component = "" ∨ component = "." then
        descend dir rest
      else if component = ".." then
        descend dir.dropLast rest
      else
        match look (dir ++ [component]) with
        | none => if rest = [] then .missing dir component else .failed .notExist
        | some .dir => descend (dir ++ [component]) rest
        | some (.file _) =>
            if rest = [] then .found (dir ++ [component]) else .failed .notDir
        | some (.symlink target) => .link dir target rest

/-- The walk through at most `links` links. The target of a link is walked from the directory
of the link, or from the root.
-/
def resolve : Nat → Path → List String → Walk
  | links, dir, components =>
      match descend look dir components with
      | .link dir target rest =>
          match links with
          | 0 => .failed .loop
          | links + 1 =>
              resolve links (if target.toList.head? = some '/' then [] else dir)
                (Path.components target ++ rest)
      | walk => walk

def maxLinks : Nat := 40

/-- The walk along a path from the root, through the last component when it is a link. -/
def follow (path : Path) : Walk :=
  resolve look maxLinks [] path

variable {look}

/-- Directories with normal names are walked through, by induction on the names. -/
theorem descend_dirs (dir : Path) (names rest : List String)
    (normal : ∀ name ∈ names, Path.Normal name)
    (dirs : ∀ before name after, names = before ++ name :: after →
      look (dir ++ before ++ [name]) = some .dir)
    : descend look dir (names ++ rest) = descend look (dir ++ names) rest := by
  induction names generalizing dir with
  | nil => rw [List.nil_append, List.append_nil]
  | cons name names ih =>
      obtain ⟨notEmpty, notDot, notUp, -⟩ := normal name List.mem_cons_self
      have first : look (dir ++ [name]) = some .dir := by
        simpa using dirs [] name names rfl
      rw [List.cons_append, descend, if_neg (not_or.mpr ⟨notEmpty, notDot⟩), if_neg notUp,
        first]
      have behind := ih (dir ++ [name])
        (fun other held => normal other (List.mem_cons_of_mem _ held))
        (fun before other after split => by
          simpa using dirs (name :: before) other after (by rw [split]; rfl))
      rw [behind, List.append_assoc, List.singleton_append]

theorem resolve_of_descend {links : Nat} {dir : Path} {components : List String} {walk : Walk}
    (ended : descend look dir components = walk)
    (direct : ∀ dir target rest, walk ≠ .link dir target rest)
    : resolve look links dir components = walk := by
  unfold resolve
  rw [ended]
  cases walk with
  | link dir target rest => exact absurd rfl (direct dir target rest)
  | found path => rfl
  | missing dir name => rfl
  | failed errno => rfl

end Walk

end GoREgo.Lib
