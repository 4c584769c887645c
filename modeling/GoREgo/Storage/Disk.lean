import GoREgo.Lib.FileSystem
import GoREgo.Lib.Machine
import GoREgo.Storage.Flight

/-! The calls of `LocalStore` on a filesystem that they share: `Put`, `PutFile`,
`UpdateActionResult`, `Get` and `GetActionResult`, each cut into its filesystem calls, any
number of them at once.
-/

namespace GoREgo.Disk

open Lib LocalStore

variable {Call Src : Type}

/-- The files of a local store: `BlobPath` and `getActionPath` of a hash, the temporary file
of a call, and the sources that `PutFile` is called with. Names of temporary files are not
reused and are not hex digits, so they meet neither each other nor a hash.
-/
inductive Path (Call Src : Type)
  | cas (hash : String)
  | ac (hash : String)
  | temp (call : Call)
  | source (src : Src)
deriving DecidableEq, Repr

abbrev Fs (Call Src : Type) := FileSystem (Path Call Src) UInt8

def casFiles (fs : Fs Call Src) : Files :=
  fun hash => fs.find (.cas hash)

def acFiles (fs : Fs Call Src) : Files :=
  fun hash => fs.find (.ac hash)

/-- The blobs as they are read: `see` gives the file that a path leads to. -/
def seenFiles (see : Path Call Src → Option Nat) (fs : Fs Call Src) : Files :=
  fun hash => (see (.cas hash)).map fs.contents

theorem directories_congr {fs fs' : Fs Call Src}
    (same : ∀ path, (∀ call, path ≠ .temp call) → (∀ src, path ≠ .source src) →
      fs'.find path = fs.find path)
    : casFiles fs' = casFiles fs ∧ acFiles fs' = acFiles fs :=
  ⟨funext (fun hash => same (.cas hash) nofun nofun),
    funext (fun hash => same (.ac hash) nofun nofun)⟩

/-- A symbolic link among the sources: its text, the file it leads to, and where its text leads
from the directories of the store. An absolute path leads to the same file from there; a relative
one as a rule leads nowhere, and may lead to a file of the store.
-/
structure Symlink (Call Src : Type) where
  text : Bytes
  file : Src
  inStore : Option (Path Call Src)
deriving DecidableEq

/-- Which inodes are symbolic links. -/
abbrev Symlinks (Call Src : Type) := Nat → Option (Symlink Call Src)

def Symlink.leads (link : Symlink Call Src) : Path Call Src → Option (Path Call Src)
  | .source _ => some (.source link.file)
  | _ => link.inStore

/-- The file that a path leads to when symbolic links are followed, as `Stat`, `Open`, `Chmod`
and `Chtimes` do. `Link`, `Rename` and `Remove` take a symbolic link itself.
-/
def follow (links : Symlinks Call Src) (fs : Fs Call Src) : Nat → Path Call Src → Option Nat
  | 0, _ => none
  | count + 1, path => do
      let inode ← fs.names path
      match links inode with
      | none => some inode
      | some link => follow links fs count (← link.leads path)

/-- Linux follows at most 40 symbolic links. -/
def seen (links : Symlinks Call Src) (fs : Fs Call Src) (path : Path Call Src) : Option Nat :=
  follow links fs 41 path

theorem follow_of_regular {links : Symlinks Call Src} {fs : Fs Call Src} {path : Path Call Src}
    (regular : ∀ inode, fs.names path = some inode → links inode = none) (count : Nat)
    : follow links fs (count + 1) path = fs.names path := by
  cases named : fs.names path with
  | none => simp [follow, named]
  | some inode => simp [follow, named, regular inode named]

theorem seen_plain (fs : Fs Call Src) : seen (fun _ => none) fs = fs.names :=
  funext (fun _ => follow_of_regular (fun _ _ => rfl) _)

theorem follow_symlink {links : Symlinks Call Src} {fs : Fs Call Src} {path : Path Call Src}
    {inode : Nat} {link : Symlink Call Src} (named : fs.names path = some inode)
    (linked : links inode = some link) (count : Nat)
    : follow links fs (count + 1) path = (link.leads path).bind (follow links fs count) := by
  simp only [follow, named, linked, Option.bind_eq_bind, Option.bind_some]

/-- `os.Chtimes` to the present of the file that a path leads to. Its error is ignored. -/
def chtimes (fs : Fs Call Src) : Option Nat → Fs Call Src
  | some inode => fs.touch inode
  | none => fs

theorem chtimes_spec (fs : Fs Call Src) (file : Option Nat)
    : (chtimes fs file).names = fs.names ∧ (chtimes fs file).contents = fs.contents
      ∧ (chtimes fs file).next = fs.next := by
  cases file <;> exact ⟨rfl, rfl, rfl⟩

variable [DecidableEq Call] [DecidableEq Src]

/-- What a filesystem call of `Put` does to the files and to the open temporary file. One
that fails on its own leaves them alone. `see` gives the file that a path leads to.
-/
def putCall (see : Path Call Src → Option Nat) (fs : Fs Call Src) (call : Call) (digest : Digest) (fd : Nat)
    : Put → Outcome → Option (Fs Call Src × Nat)
  | _, .fail _ => some (fs, fd)
  | .createTemp, .ok => (fs.create (.temp call)).map (fun fs' => (fs', fs.next))
  | .rename _, .ok =>
      (fs.rename (.temp call) (.cas digest.hash)).map (fun fs' => (fs', fd))
  | .chmod, .ok => if (see (.cas digest.hash)).isSome then some (fs, fd) else none
  | .deferred _ _, .ok => some (fs.discard (.temp call), fd)
  | _, .ok => some (fs, fd)

/-- What a filesystem call of `PutFile` does to the files, to the open source and to the
open temporary file. `Stat` of a blob that exists is followed by `Chtimes` when access times
are kept by hand. `Link` makes a second name for a symbolic link where the source is one. The
deferred function removes the temporary file if its `Stat` finds it.
-/
def putFileCall (force : Bool) (see : Path Call Src → Option Nat) (fs : Fs Call Src) (call : Call)
    (digest : Digest) (src : Src) (input fd : Nat)
    : PutFile → Outcome → Option (Fs Call Src × Nat × Nat)
  | _, .fail _ => some (fs, input, fd)
  | .stat, .ok =>
      some (if force then chtimes fs (see (.cas digest.hash)) else fs, input, fd)
  | .link, .ok =>
      (fs.link (.source src) (.temp call)).map (fun fs' => (fs', input, fd))
  | .open, .ok => (see (.source src)).map (fun inode => (fs, inode, fd))
  | .create, .ok =>
      (fs.createOrTruncate (.temp call)).map (fun fs' => (fs', input, fs.next))
  | .chmod _ _, .ok => if (see (.temp call)).isSome then some (fs, input, fd) else none
  | .rename _, .ok =>
      (fs.rename (.temp call) (.cas digest.hash)).map (fun fs' => (fs', input, fd))
  | .deferred _ _, .ok =>
      some (if (see (.temp call)).isSome then fs.discard (.temp call) else fs, input, fd)
  | _, .ok => some (fs, input, fd)

/-- What `PutFile` reads: the linked file, or the one it has open. -/
def putFileInput (see : Path Call Src → Option Nat) (fs : Fs Call Src) (src : Src) (input : Nat)
    : PutFile → Bytes
  | .link => ((see (.source src)).map fs.contents).getD []
  | _ => fs.contents input

def updateCall (fs : Fs Call Src) (call : Call) (digest : Digest) (fd : Nat)
    : UpdateActionResult → Outcome → Option (Fs Call Src × Nat)
  | _, .fail _ => some (fs, fd)
  | .createTemp _, .ok => (fs.create (.temp call)).map (fun fs' => (fs', fs.next))
  | .rename _, .ok =>
      (fs.rename (.temp call) (.ac digest.hash)).map (fun fs' => (fs', fd))
  | .deferred _ _, .ok => some (fs.discard (.temp call), fd)
  | _, .ok => some (fs, fd)

inductive Has
  | stat
  | chtimes
  | returned (found : Except GoError Bool)
deriving DecidableEq

/-- One filesystem call of `Has`. A file that does not exist is no error of `Stat`. -/
def Has.disk (force : Bool) (see : Path Call Src → Option Nat) (fs : Fs Call Src) (digest : Digest)
    : Has → Outcome → Option (Fs Call Src × Has)
  | .stat, .ok =>
      if (see (.cas digest.hash)).isSome then
        some (fs, if force then .chtimes else .returned (.ok true))
      else
        some (fs, .returned (.ok false))
  | .stat, .fail err => some (fs, .returned (.error err))
  | .chtimes, .ok => some (Disk.chtimes fs (see (.cas digest.hash)), .returned (.ok true))
  | .chtimes, .fail _ => some (fs, .returned (.ok true))
  | .returned _, _ => none

inductive Get
  | open
  | chtimes (inode : Nat)
  | returned (file : Except GoError Nat)
deriving DecidableEq

def Get.disk (force : Bool) (see : Path Call Src → Option Nat) (fs : Fs Call Src) (digest : Digest)
    : Get → Outcome → Option (Fs Call Src × Get)
  | .open, .ok =>
      (see (.cas digest.hash)).map (fun inode =>
        (fs, if force then .chtimes inode else .returned (.ok inode)))
  | .open, .fail err => some (fs, .returned (.error err))
  | .chtimes inode, .ok => some (Disk.chtimes fs (see (.cas digest.hash)), .returned (.ok inode))
  | .chtimes inode, .fail _ => some (fs, .returned (.ok inode))
  | .returned _, _ => none

/-- The next filesystem call of `GetActionResult`, with what `ReadFile` has read. -/
inductive GetActionResult
  | open
  | read (inode : Nat) (got : Bytes)
  | returned (data : Option Bytes) (result : Except GoError ActionResult)

/-- One filesystem call of `GetActionResult`. `ReadFile` ends at the end of the file, and
what it read is unmarshalled.
-/
def GetActionResult.disk (unmarshal : Bytes → Except GoError ActionResult)
    (see : Path Call Src → Option Nat) (fs : Fs Call Src) (digest : Digest)
    : GetActionResult → Outcome → Option GetActionResult
  | .open, .ok => (see (.ac digest.hash)).map (fun inode => .read inode [])
  | .open, .fail err => some (.returned none (.error err))
  | .read inode got, .ok =>
      if (fs.contents inode).length ≤ got.length then
        some (.returned (some got) (unmarshal got))
      else
        none
  | .read _ _, .fail err => some (.returned none (.error err))
  | .returned _ _, _ => none

inductive Request (Src : Type)
  | put (digest : Digest) (data : Bytes)
  | putFile (digest : Digest) (src : Src)
  | updateActionResult (digest : Digest) (result : ActionResult)
  | get (digest : Digest)
  | getActionResult (digest : Digest)

/-- Where a call is: what its reader has left, the files it has open, and its next
filesystem call.
-/
inductive Pc
  | put (rest : Bytes) (fd : Nat) (pc : Put)
  | putFile (input fd : Nat) (pc : PutFile)
  | update (fd : Nat) (pc : UpdateActionResult)
  | get (pc : Get)
  | getActionResult (pc : GetActionResult)

def Request.start : Request Src → Pc
  | .put _ data => .put data 0 .mkdirAll
  | .putFile _ _ => .putFile 0 0 .stat
  | .updateActionResult _ _ => .update 0 .marshal
  | .get _ => .get .open
  | .getActionResult _ => .getActionResult .open

def Pc.hasReturned : Pc → Bool
  | .put _ _ (.returned _ _) => true
  | .putFile _ _ (.returned _ _) => true
  | .update _ (.returned _ _) => true
  | .get (.returned _) => true
  | .getActionResult (.returned _ _) => true
  | _ => false

/-- What stays fixed: the calls and their arguments, the contents of the sources that are regular
files, the others, which are symbolic links to these, protobuf, and the option of the store.
-/
structure World (Call Src : Type) where
  request : Call → Request Src
  source : Src → Bytes
  links : Src → Option (Symlink Call Src)
  ends : ∀ src link, links src = some link → links link.file = none
  marshal : ActionResult → Bytes
  unmarshal : Bytes → Except GoError ActionResult
  forceUpdateATime : Bool

theorem no_links_end {Call Src : Type} (_ : Src) (link : Symlink Call Src)
    (_ : none = some link)
    : (none : Option (Symlink Call Src)) = none :=
  rfl

/-- What the inode of a source has as its contents. -/
def World.raw (world : World Call Src) (src : Src) : Bytes :=
  (world.links src).elim (world.source src) Symlink.text

/-- What is read through a source. -/
def World.data (world : World Call Src) (src : Src) : Bytes :=
  (world.links src).elim (world.source src) (fun link => world.source link.file)

structure State (Call Src : Type) where
  fs : Fs Call Src
  links : Symlinks Call Src
  pcs : Call → Pc

def State.see (s : State Call Src) : Path Call Src → Option Nat :=
  seen s.links s.fs

/-- One filesystem call of a call with its outcome, one read of the reader of a `Put`, a part
of a copy, of a write or of `ReadFile`; a source made, hard linked from the CAS or unlinked by
somebody else; or the passing of time.
-/
inductive Label (Call Src : Type)
  | disk (call : Call) (outcome : Outcome)
  | read (call : Call) (read : Proxy.Read)
  | chunk (call : Call) (count : Nat)
  | appear (src : Src)
  | stage (hash : String) (src : Src)
  | vanish (src : Src)
  | tick (duration : Nat)

def diskStep (world : World Call Src) (see : Path Call Src → Option Nat) (fs : Fs Call Src)
    (call : Call) (pc : Pc) (outcome : Outcome)
    : Option (Fs Call Src × Pc) :=
  match world.request call, pc with
  | .put digest _, .put rest fd pc => do
      let (fs', fd') ← putCall see fs call digest fd pc outcome
      let (_, next) ← pc.disk digest (casFiles fs) outcome
      some (fs', .put rest fd' next)
  | .putFile digest src, .putFile input fd pc => do
      let (fs', input', fd') ←
        putFileCall world.forceUpdateATime see fs call digest src input fd pc outcome
      let (_, next) ← pc.disk digest (putFileInput see fs src input pc) (seenFiles see fs) outcome
      some (fs', .putFile input' fd' next)
  | .updateActionResult digest result, .update fd pc => do
      let (fs', fd') ← updateCall fs call digest fd pc outcome
      let (_, next) ← pc.disk digest (world.marshal result) (acFiles fs) outcome
      some (fs', .update fd' next)
  | .get digest, .get pc => do
      let (fs', next) ← pc.disk world.forceUpdateATime see fs digest outcome
      some (fs', .get next)
  | .getActionResult digest, .getActionResult pc => do
      let next ← pc.disk world.unmarshal see fs digest outcome
      some (fs, .getActionResult next)
  | _, _ => none

/-- `io.Copy` in `Put` reads from its reader and writes what it got. -/
def readStep (world : World Call Src) (fs : Fs Call Src) (call : Call) (pc : Pc)
    (read : Proxy.Read)
    : Option (Fs Call Src × Pc) :=
  match world.request call, pc with
  | .put digest _, .put rest fd pc => do
      let left ← read.after rest
      match read with
      | .data bytes => do
          let next ← pc.write bytes
          some (fs.append fd bytes, .put left fd next)
      | .error err => do
          let next ← pc.endCopy digest err
          some (fs, .put left fd next)
  | _, _ => none

/-- Up to `count` bytes move: from the source of a `PutFile` to its temporary file, from a
marshalled result to its temporary file, or from an AC file to `GetActionResult`.
-/
def chunkStep (fs : Fs Call Src) (pc : Pc) (count : Nat) : Option (Fs Call Src × Pc) :=
  match pc with
  | .putFile input fd (.copy written) =>
      some (fs.append fd (((fs.contents input).drop written.length).take count),
        .putFile input fd (.copy ((fs.contents input).take (written.length + count))))
  | .update fd (.write data written) =>
      some (fs.append fd ((data.drop written.length).take count),
        .update fd (.write data (data.take (written.length + count))))
  | .getActionResult (.read inode got) =>
      some (fs, .getActionResult
        (.read inode ((fs.contents inode).take (got.length + count))))
  | _ => none

def step (world : World Call Src) (s : State Call Src)
    : Label Call Src → Option (State Call Src)
  | .disk call outcome =>
      (diskStep world s.see s.fs call (s.pcs call) outcome).map (fun next =>
        ⟨next.1, s.links, Function.update s.pcs call next.2⟩)
  | .read call read =>
      (readStep world s.fs call (s.pcs call) read).map (fun next =>
        ⟨next.1, s.links, Function.update s.pcs call next.2⟩)
  | .chunk call count =>
      (chunkStep s.fs (s.pcs call) count).map (fun next =>
        ⟨next.1, s.links, Function.update s.pcs call next.2⟩)
  | .appear src =>
      (s.fs.create (.source src)).map (fun fs' =>
        { s with
          fs := fs'.append s.fs.next (world.raw src)
          links := Function.update s.links s.fs.next (world.links src) })
  | .stage hash src =>
      if s.fs.find (.cas hash) = some (world.raw src)
          ∧ (s.fs.names (.cas hash)).bind s.links = world.links src then
        (s.fs.link (.cas hash) (.source src)).map (fun fs' => { s with fs := fs' })
      else
        none
  | .vanish src => (s.fs.remove (.source src)).map (fun fs' => { s with fs := fs' })
  | .tick duration => some { s with fs := s.fs.tick duration }

/-- The store starts without files, each call before its first filesystem call. -/
def machine (world : World Call Src) : Machine (State Call Src) (Label Call Src) where
  initial s := s = ⟨.empty, fun _ => none, fun call => (world.request call).start⟩
  step := step world

end GoREgo.Disk
