import GoREgo.Execution.Outputs
import GoREgo.Execution.StagingSteps
import GoREgo.Storage.Contents

/-! How deep the recursion of `stageDirectory` goes. It follows the digests of a directory's
subdirectories through the CAS, with no bound and no record of where it has been, so it ends
unless it comes, while it stages a directory, to the same hash again. A node without a digest ends
it in a panic.
The message under a hash is what the CAS holds at that moment; a staging that copies over a
hard link of a blob changes it. The calls are therefore taken with the disk they are made on.
-/

namespace GoREgo.Worker

open Lib

namespace Stager

variable (w : Stager)

/-- `stageDirectory` with something else in place of the calls at a depth. -/
def stageUpTo (below : Path → Digest → StageM Unit) : Nat → Path → Digest → StageM Unit
  | 0, targetDir, dirDigest => below targetDir dirDigest
  | depth + 1, targetDir, dirDigest => do
      let dir ← w.openDirectory targetDir dirDigest
      forM dir.directories (w.stageSubdirectory (stageUpTo below depth) targetDir)

/-- The bound on the depth in `stageDirectory` is such a cut. -/
theorem stageDirectory_eq (depth : Nat)
    : w.stageDirectory depth
      = w.stageUpTo
          (fun _ _ => throw (.failed (.plain "goroutine stack exceeds limit"))) depth := by
  induction depth with
  | zero => rfl
  | succ depth ih =>
      funext targetDir dirDigest
      rw [stageDirectory, stageUpTo, ih]

theorem stageUpTo_add (below : Path → Digest → StageM Unit) (depth more : Nat)
    : w.stageUpTo below (depth + more) = w.stageUpTo (w.stageUpTo below more) depth := by
  induction depth with
  | zero => rw [Nat.zero_add]; rfl
  | succ depth ih =>
      funext targetDir dirDigest
      rw [Nat.succ_add, stageUpTo, stageUpTo, ih]

/-- A call of `stageDirectory`, with the disk on which it is made. -/
structure Call where
  host : Host
  targetDir : Path
  digest : Digest

/-- The recursion of a call is finite and has a result: at some depth it does not matter any more
what a further call would do.
-/
def Returns (call : Call) (result : EStateM.Result Stop Host Unit) : Prop :=
  ∃ depth, ∀ below, w.stageUpTo below depth call.targetDir call.digest call.host = result

def Panics {α : Type} (result : EStateM.Result Stop Host α) : Prop :=
  ∃ panic host, result = .error (.panicked panic) host

variable {w}

theorem Returns.stageDirectory {call : Call} {result : EStateM.Result Stop Host Unit}
    (returns : w.Returns call result)
    : ∃ depth, ∀ fuel, depth ≤ fuel →
        w.stageDirectory fuel call.targetDir call.digest call.host = result := by
  obtain ⟨depth, ends⟩ := returns
  refine ⟨depth, fun fuel enough => ?_⟩
  obtain ⟨more, rfl⟩ := Nat.exists_eq_add_of_le enough
  rw [stageDirectory_eq, stageUpTo_add]
  exact ends _

variable (w)

inductive Calls (call : Call) : Call → Prop
  | subdirectory {dir host₁ before subdir after host₂ digest depth}
    (opened : w.openDirectory call.targetDir call.digest call.host = .ok dir host₁)
    (split : dir.directories = before ++ subdir :: after)
    (staged : ∀ below,
      (forM before (w.stageSubdirectory (w.stageUpTo below depth) call.targetDir) : StageM Unit)
        host₁ = .ok () host₂)
    (valid : w.sdk.newFromProto subdir.digest = .ok (.ok digest))
    : Calls call ⟨host₂, Path.join call.targetDir subdir.name, digest⟩

inductive Nested (first : Call) : List String → Call → Prop
  | here : Nested first [] first
  | inner {hashes mid last} (nested : Nested first hashes mid) (calls : w.Calls mid last)
    : Nested first (mid.digest.hash :: hashes) last

def Acyclic (first : Call) : Prop :=
  ∀ hashes last, w.Nested first hashes last → last.digest.hash ∉ hashes

/-- The messages that are read have a digest in every node of a file or a directory. -/
def Complete (first : Call) : Prop :=
  ∀ hashes last dir, w.Nested first hashes last → w.directoryAt last.host last.digest = some dir →
    dir.HasDigests

variable {w} {call : Call}

theorem newFromProto_ok {digest : Option Digest} {value : Digest} {host : Host}
    (valid : w.sdk.newFromProto digest = .ok (.ok value))
    : w.newFromProto digest host = .ok value host := by
  rw [newFromProto, valid]
  rfl

theorem newFromProto_fails {digest : Option Digest} {err : GoError} {host : Host}
    (invalid : w.sdk.newFromProto digest = .ok (.error err))
    : w.newFromProto digest host = .error (.failed err) host := by
  rw [newFromProto, invalid]
  rfl

/-- The loop over some subdirectories of a call is finite, if the calls it makes are. By
induction on the subdirectories that are left; the ones before have been staged.
-/
theorem loop_returns {dir : Directory} {host₁ : Host}
    (inner : ∀ next, w.Calls call next → ∃ result, w.Returns next result ∧ ¬ Panics result)
    (opened : w.openDirectory call.targetDir call.digest call.host = .ok dir host₁)
    (after before : List DirectoryNode) (split : dir.directories = before ++ after)
    (given : ∀ subdir ∈ after, subdir.digest.isSome = true) {host₂ : Host} {depth : Nat}
    (staged : ∀ below,
      (forM before (w.stageSubdirectory (w.stageUpTo below depth) call.targetDir) : StageM Unit)
        host₁ = .ok () host₂)
    : ∃ depth result, ¬ Panics result ∧ ∀ below,
        (forM after (w.stageSubdirectory (w.stageUpTo below depth) call.targetDir) : StageM Unit)
          host₂ = result := by
  induction after generalizing before host₂ depth with
  | nil => exact ⟨0, .ok () host₂, by rintro ⟨_, _, ⟨⟩⟩, fun _ => rfl⟩
  | cons subdir after ih =>
      obtain ⟨checked, passed⟩ := (w.sdk.returns_newFromProto_iff subdir.digest).mpr
        (given subdir List.mem_cons_self)
      cases checked with
      | error err =>
          refine ⟨0, .error (.failed err) host₂, by rintro ⟨_, _, ⟨⟩⟩, fun below => ?_⟩
          rw [List.forM_cons]
          exact run_bind_error (run_bind_error (newFromProto_fails passed))
      | ok digest =>
          obtain ⟨result₁, ⟨depth₁, ends⟩, calm⟩ :=
            inner _ (Calls.subdirectory opened split staged passed)
          have turn below : w.stageSubdirectory (w.stageUpTo below depth₁) call.targetDir subdir host₂
              = result₁ := by
            rw [← ends below]
            exact run_bind_ok (newFromProto_ok passed)
          cases result₁ with
          | error err host₃ =>
              refine ⟨depth₁, .error err host₃, ?_, fun below => ?_⟩
              · rintro ⟨panic, host, ⟨⟩⟩
                exact calm ⟨panic, _, rfl⟩
              · rw [List.forM_cons]
                exact run_bind_error (turn below)
          | ok value host₃ =>
              have more below : w.stageUpTo below (depth + depth₁)
                  = w.stageUpTo (w.stageUpTo below depth₁) depth := stageUpTo_add w below depth depth₁
              have extra below : w.stageUpTo below (depth + depth₁)
                  = w.stageUpTo (w.stageUpTo below depth) depth₁ := by
                rw [Nat.add_comm]
                exact stageUpTo_add w below depth₁ depth
              have staged' below : (forM (before ++ [subdir])
                  (w.stageSubdirectory (w.stageUpTo below (depth + depth₁)) call.targetDir)
                    : StageM Unit) host₁ = .ok () host₃ := by
                rw [List.forM_append]
                have first := staged (w.stageUpTo below depth₁)
                rw [← more] at first
                rw [run_bind_ok first, List.forM_cons, extra]
                exact run_bind_ok (turn _)
              obtain ⟨depth₂, result₂, calm, rest⟩ := ih (before ++ [subdir]) (by simp [split])
                (fun subdir held => given subdir (List.mem_cons_of_mem _ held)) staged'
              refine ⟨depth₁ + depth₂, result₂, calm, fun below => ?_⟩
              have first := turn (w.stageUpTo below depth₂)
              rw [← stageUpTo_add] at first
              rw [List.forM_cons, run_bind_ok first, Nat.add_comm, stageUpTo_add]
              exact rest _

/-- A program that leaves the blobs under their digests and, if `calm`, ends in no panic. -/
def Behaves {α : Type} (calm : Prop) (program : StageM α) : Prop :=
  ∀ host, Ends program (fun _ host' => host'.blobs = host.blobs)
    (fun stop host' => host'.blobs = host.blobs ∧ (calm → ∃ err, stop = .failed err)) host

namespace Behaves

variable {α β : Type} {calm : Prop}

theorem pure (value : α) : Behaves calm (pure value : StageM α) := fun _ => rfl

theorem bind {first : StageM α} {next : α → StageM β} (behaves : Behaves calm first)
    (later : ∀ value, Behaves calm (next value))
    : Behaves calm (first >>= next) := by
  refine fun host => Ends.bind ((behaves host).imp (fun value host₁ kept => ?_))
  have ends := later value host₁
  rwa [kept] at ends

theorem wrap {program : StageM α} (behaves : Behaves calm program) (text : String)
    : Behaves calm (program.adaptExcept (.wrap text)) := by
  refine fun host => Ends.adaptExcept ((behaves host).mono (fun _ _ kept => kept) ?_)
  rintro stop host' ⟨kept, failed⟩
  refine ⟨kept, fun calm => ?_⟩
  obtain ⟨err, rfl⟩ := failed calm
  exact ⟨_, rfl⟩

theorem forM {items : List α} {body : α → StageM Unit}
    (each : ∀ item ∈ items, Behaves calm (body item))
    : Behaves calm (ForM.forM items body) := by
  induction items with
  | nil => exact pure ()
  | cons item rest ih =>
      rw [List.forM_cons]
      exact bind (each item List.mem_cons_self)
        (fun _ => ih (fun item held => each item (List.mem_cons_of_mem _ held)))

theorem onVolume {calls : Volume.SysM File α} : Behaves calm (Stager.onVolume calls) := by
  intro host
  unfold Ends Stager.onVolume
  cases calls host.volume with
  | ok value volume => rfl
  | error err volume => exact ⟨rfl, fun _ => ⟨_, rfl⟩⟩

theorem newFromProto {digest : Option Digest} (given : calm → digest.isSome = true)
    : Behaves calm (w.newFromProto digest) := by
  intro host
  unfold Ends Stager.newFromProto
  cases passed : w.sdk.newFromProto digest with
  | error panic =>
      refine ⟨rfl, fun calm => ?_⟩
      obtain ⟨value, returned⟩ := (w.sdk.returns_newFromProto_iff digest).mpr (given calm)
      cases passed.symm.trans returned
  | ok checked =>
      cases checked with
      | error err => exact ⟨rfl, fun _ => ⟨err, rfl⟩⟩
      | ok value => rfl

theorem get (digest : Digest) : Behaves calm (w.get digest) := by
  intro host
  unfold Ends Stager.get
  cases host.blobs digest with
  | none => exact ⟨rfl, fun _ => ⟨_, rfl⟩⟩
  | some inode => rfl

theorem copyFile (inode : Nat) (targetPath : Path) (executable : Bool)
    : Behaves calm (Stager.copyFile inode targetPath executable) :=
  .bind .onVolume (fun _ => .bind (fun _ => rfl) (fun _ _ => rfl))

theorem tryLink (inode : Nat) (targetPath : Path) : Behaves calm (w.tryLink inode targetPath) := by
  intro host
  unfold Ends Stager.tryLink
  by_cases linkable : w.linkable = true
  · rw [if_pos linkable]
    cases Volume.link inode targetPath host.volume with
    | ok value volume => rfl
    | error err volume => rfl
  · rw [if_neg linkable]

theorem stageFile (targetPath : Path) (digest : Digest) (executable : Bool)
    : Behaves calm (w.stageFile targetPath digest executable) := by
  refine (get digest).bind (fun inode => ?_)
  split
  · refine .bind (fun _ => rfl) (fun _ => (tryLink inode targetPath).bind (fun _ => ?_))
    split
    · exact .pure ()
    · exact copyFile inode targetPath executable
  · exact copyFile inode targetPath executable

theorem stageFiles (dir : Directory) (targetDir : Path)
    : Behaves dir.HasDigests (ForM.forM dir.files (w.stageFileNode targetDir)) :=
  .forM (fun file held => .bind (.newFromProto (fun given => given.1 file held))
    (fun fileDigest => (stageFile _ fileDigest file.isExecutable).wrap _))

theorem stageSubdirectory {deeper : Path → Digest → StageM Unit}
    (behaves : ∀ targetDir digest, Behaves False (deeper targetDir digest)) (targetDir : Path)
    (subdir : DirectoryNode)
    : Behaves False (w.stageSubdirectory deeper targetDir subdir) :=
  .bind (.newFromProto False.elim) (fun digest => behaves (Path.join targetDir subdir.name) digest)

end Behaves

/-- What opening a directory does: the blobs stay, and the message is the one that the disk held.
There is no panic if its nodes have digests.
-/
theorem openDirectory_ends (targetDir : Path) (dirDigest : Digest) (host : Host)
    : Ends (w.openDirectory targetDir dirDigest)
        (fun dir host' => host'.blobs = host.blobs ∧ w.directoryAt host dirDigest = some dir)
        (fun stop host' => host'.blobs = host.blobs
          ∧ ((∀ dir, w.directoryAt host dirDigest = some dir → dir.HasDigests) →
              ∃ err, stop = .failed err)) host := by
  have made : Ends (onVolume (Volume.mkdirAll targetDir))
      (fun _ host₁ => host₁.blobs = host.blobs ∧ host₁.volume.files = host.volume.files)
      (fun stop host₁ => host₁.blobs = host.blobs ∧ ∃ err, stop = .failed err) host :=
    onVolume_ends ((Volume.mkdirAll_sameFiles targetDir host.volume).mono
      (fun _ _ same => ⟨rfl, same.1⟩) (fun _ _ _ => ⟨rfl, _, rfl⟩))
  refine Ends.bind (made.mono ?_ (fun _ _ failed => ⟨failed.1, fun _ => failed.2⟩))
  rintro _ host₁ ⟨blobs, files⟩
  have same : w.directoryAt host₁ dirDigest = w.directoryAt host dirDigest := by
    rw [directoryAt, directoryAt, blobs, files]
  rw [← same, ← blobs]
  refine Ends.bind ((fetchDirectory_ends dirDigest).mono ?_ ?_)
  · rintro dir host₁ ⟨rfl, found⟩
    have kept : ∀ {host' : Host} {stop : Stop}, host'.blobs = host₁.blobs
        ∧ (dir.HasDigests → ∃ err, stop = .failed err) → host'.blobs = host₁.blobs
          ∧ ((∀ dir, w.directoryAt host₁ dirDigest = some dir → dir.HasDigests) →
              ∃ err, stop = .failed err) :=
      fun ended => ⟨ended.1, fun given => ended.2 (given dir found)⟩
    refine Ends.bind ((Behaves.stageFiles dir targetDir host₁).mono ?_ (fun _ _ => kept))
    intro _ host₂ blobs₂
    have links : Behaves dir.HasDigests (forM dir.symlinks (stageSymlink targetDir)) :=
      .forM (fun _ _ => Behaves.onVolume.wrap _)
    refine Ends.bind ((links host₂).mono ?_ ?_)
    · intro _ host₃ blobs₃
      exact Ends.pure ⟨blobs₃.trans blobs₂, found⟩
    · rintro stop host₃ ⟨blobs₃, failed⟩
      exact kept ⟨blobs₃.trans blobs₂, failed⟩
  · rintro stop _ ⟨rfl, failed⟩
    exact ⟨rfl, fun _ => failed⟩

theorem stageUpTo_behaves {below : Path → Digest → StageM Unit}
    (behaves : ∀ targetDir digest, Behaves False (below targetDir digest)) (depth : Nat)
    (targetDir : Path) (dirDigest : Digest)
    : Behaves False (w.stageUpTo below depth targetDir dirDigest) := by
  induction depth generalizing targetDir dirDigest with
  | zero => exact behaves targetDir dirDigest
  | succ depth ih =>
      have opens : Behaves False (w.openDirectory targetDir dirDigest) := fun host =>
        (openDirectory_ends targetDir dirDigest host).mono (fun _ _ opened => opened.1)
          (fun _ _ failed => ⟨failed.1, False.elim⟩)
      exact opens.bind (fun dir => .forM (fun subdir _ => .stageSubdirectory ih targetDir subdir))

theorem returns_of_calls (complete : w.Complete call)
    (inner : ∀ next, w.Calls call next → ∃ result, w.Returns next result ∧ ¬ Panics result)
    : ∃ result, w.Returns call result ∧ ¬ Panics result := by
  have ends := openDirectory_ends (w := w) call.targetDir call.digest call.host
  have here := fun dir => complete [] call dir .here
  cases opened : w.openDirectory call.targetDir call.digest call.host with
  | error stop host₁ =>
      obtain ⟨err, rfl⟩ := (ends.of_eq_error opened).2 here
      exact ⟨.error (.failed err) host₁, ⟨1, fun _ => run_bind_error opened⟩,
        by rintro ⟨_, _, ⟨⟩⟩⟩
  | ok dir host₁ =>
      have none_before below : (forM []
          (w.stageSubdirectory (w.stageUpTo below 0) call.targetDir) : StageM Unit) host₁
            = .ok () host₁ := rfl
      obtain ⟨depth, result, calm, ends⟩ := loop_returns inner opened dir.directories [] rfl
        (here dir (ends.of_eq_ok opened).2).2 none_before
      refine ⟨result, ⟨depth + 1, fun below => ?_⟩, calm⟩
      rw [stageUpTo, run_bind_ok opened]
      exact ends below

theorem Calls.blobs {next : Call} (calls : w.Calls call next)
    : next.host.blobs = call.host.blobs := by
  cases calls with
  | @subdirectory dir host₁ before subdir after host₂ digest depth opened split staged valid =>
      have first := (openDirectory_ends (w := w) call.targetDir call.digest call.host).of_eq_ok opened
      -- the loop does not reach the cut, so it can be any program that behaves
      have behaves := stageUpTo_behaves (w := w) (fun _ _ => Behaves.pure ()) depth
      have loop : Behaves False (forM before
          (w.stageSubdirectory (w.stageUpTo (fun _ _ => pure ()) depth) call.targetDir)) :=
        .forM (fun subdir _ => .stageSubdirectory behaves call.targetDir subdir)
      exact ((loop host₁).of_eq_ok (staged _)).trans first.1

theorem Nested.blobs {first last : Call} {hashes : List String}
    (nested : w.Nested first hashes last)
    : last.host.blobs = first.host.blobs := by
  induction nested with
  | here => rfl
  | inner _ calls ih => exact calls.blobs.trans ih

theorem Calls.stored {next : Call} (calls : w.Calls call next)
    : call.host.blobs call.digest ≠ none := by
  cases calls with
  | subdirectory opened split staged valid =>
      intro absent
      have found := ((openDirectory_ends (w := w) _ _ _).of_eq_ok opened).2
      rw [directoryAt, absent] at found
      cases found

theorem Nested.complete {first last : Call} {hashes : List String} (complete : w.Complete first)
    (nested : w.Nested first hashes last)
    : w.Complete last := by
  intro inner final dir further found
  have joined : ∃ hashes, w.Nested first hashes final := by
    clear found
    induction further with
    | here => exact ⟨hashes, nested⟩
    | inner _ calls ih =>
        obtain ⟨hashes, nested⟩ := ih
        exact ⟨_, .inner nested calls⟩
  obtain ⟨hashes, nested⟩ := joined
  exact complete hashes final dir nested found

/-- The hashes around a call are stored, and they differ if no directory comes up inside its own
staging.
-/
theorem Nested.hashes {first last : Call} {hashes : List String} (acyclic : w.Acyclic first)
    {stored : Finset String}
    (known : ∀ digest, first.host.blobs digest ≠ none → digest.hash ∈ stored)
    (nested : w.Nested first hashes last)
    : hashes.Nodup ∧ ∀ hash ∈ hashes, hash ∈ stored := by
  induction nested with
  | here => exact ⟨List.nodup_nil, nofun⟩
  | @inner hashes mid last nested calls ih =>
      have here : mid.digest.hash ∈ stored := by
        apply known
        rw [← nested.blobs]
        exact calls.stored
      refine ⟨List.nodup_cons.mpr ⟨acyclic _ _ nested, ih.1⟩, fun hash held => ?_⟩
      rcases List.mem_cons.mp held with rfl | held
      · exact here
      · exact ih.2 hash held

/-- A call has a finite recursion, by induction on the hashes that are not yet around it. -/
theorem Nested.returns {first : Call} (acyclic : w.Acyclic first) (complete : w.Complete first)
    {stored : Finset String}
    (known : ∀ digest, first.host.blobs digest ≠ none → digest.hash ∈ stored) (left : Nat) {last : Call} {hashes : List String} (nested : w.Nested first hashes last)
    (room : stored.card ≤ hashes.length + left)
    : ∃ result, w.Returns last result ∧ ¬ Panics result := by
  induction left generalizing last hashes with
  | zero =>
      -- all stored hashes are around the call, so its own hash is not stored
      refine returns_of_calls (nested.complete complete) (fun next calls => ?_)
      obtain ⟨distinct, inside⟩ := (Nested.inner nested calls).hashes acyclic known
      have bound : (last.digest.hash :: hashes).toFinset.card ≤ stored.card :=
        Finset.card_le_card (fun hash held => inside hash (List.mem_toFinset.mp held))
      rw [List.toFinset_card_of_nodup distinct, List.length_cons] at bound
      omega
  | succ left ih =>
      refine returns_of_calls (nested.complete complete)
        (fun next calls => ih (.inner nested calls) ?_)
      rw [List.length_cons]
      omega

end Stager

def Host.Holds (host : Host) (files : LocalStore.Files) : Prop :=
  ∀ digest, (host.blobs digest).map (fun inode => (host.volume.files inode).data)
    = files digest.hash

namespace Stager

/-- Over every CAS that clients can create, the recursion from every input root is finite, and
`stageDirectory` returns success or an error, unless a directory comes up inside its own staging or
a node of a message has no digest.
-/
theorem staging_finite {Client : Type} [DecidableEq Client] {s : LocalStore.Contents Client}
    (reach : LocalStore.Contents.machine.Reachable Machine.anyStep s) (w : Stager) {host : Host}
    (holds : host.Holds s.files) (targetDir : Path) (inputRootDigest : Digest)
    (acyclic : w.Acyclic ⟨host, targetDir, inputRootDigest⟩)
    (complete : w.Complete ⟨host, targetDir, inputRootDigest⟩)
    : ∃ result, w.Returns ⟨host, targetDir, inputRootDigest⟩ result ∧ ¬ Panics result
        ∧ ∃ depth, ∀ fuel, depth ≤ fuel →
            w.stageDirectory fuel targetDir inputRootDigest host = result := by
  have bounded : { hash | s.files hash ≠ none }.Finite :=
    LocalStore.Contents.bounded_inductive.reachable reach
  have known (digest : Digest) (present : host.blobs digest ≠ none)
      : digest.hash ∈ bounded.toFinset := by
    refine bounded.mem_toFinset.mpr (fun absent => present ?_)
    rw [← holds digest] at absent
    exact Option.map_eq_none_iff.mp absent
  obtain ⟨result, returns, calm⟩ :=
    Nested.returns acyclic complete known bounded.toFinset.card .here (by simp)
  exact ⟨result, returns, calm, returns.stageDirectory⟩

end Stager

def digestOfByte (byte : UInt8) : Digest where
  hash := lastDigitHash [byte]
  sizeBytes := 1

/-- A directory with one subdirectory, whose digest is that of a byte. -/
def nestingDirectory (name : String) (byte : UInt8) : Directory where
  files := []
  directories := [{ name := name, digest := some (digestOfByte byte) }]
  symlinks := []

def byteStager (sub root : Directory) : Stager where
  toEncoding := smallEncoding sub root
  localBlobs := true
  linkable := true
  missing _ := .plain "blob not found"

/-- A store with one byte under the hash of the byte 1 and one under that of the byte 2. -/
def twoBlobHost (first second : UInt8) : Host where
  volume := (Volume.bare (fun inode =>
    { data := if inode = 0 then [first] else [second], executable := false }) 2).add [] "w" .dir
      rfl normal_w rfl trivial
  blobs digest :=
    if digest.hash = (digestOfByte 1).hash then some 0
    else if digest.hash = (digestOfByte 2).hash then some 1
    else none

def putByte (call : Bool) (digest : Digest) (byte : UInt8)
    : List (LocalStore.Contents.Label Bool) :=
  [.begin call digest, .disk call .ok, .disk call .ok, .write call [byte], .endCopy call .eof,
    .disk call .ok, .disk call .ok, .disk call .ok, .disk call .ok]

namespace Stager

theorem twoBlobs_reachable (first second : UInt8)
    : ∃ s : LocalStore.Contents Bool,
        LocalStore.Contents.machine.Reachable Machine.anyStep s
        ∧ (twoBlobHost first second).Holds s.files := by
  have replay : LocalStore.Contents.machine.exec LocalStore.Contents.new
      (putByte false (digestOfByte 1) first ++ putByte true (digestOfByte 2) second)
      = some ⟨Function.update (Function.update (fun _ => none) (digestOfByte 1).hash
          (some [first])) (digestOfByte 2).hash (some [second]), _⟩ := rfl
  refine ⟨_, ⟨_, _, rfl, Machine.exec_run replay⟩, fun digest => ?_⟩
  have apart : (digestOfByte 1).hash ≠ (digestOfByte 2).hash := by decide
  by_cases one : digest.hash = (digestOfByte 1).hash
  · simp [twoBlobHost, one, apart]
    rfl
  · by_cases two : digest.hash = (digestOfByte 2).hash
    · simp [twoBlobHost, two, apart.symm]
      rfl
    · simp [twoBlobHost, one, two]

theorem twoBlobs_opened {w : Stager} {digest : Digest} {first second : UInt8} {dir : Directory}
    (found : w.directoryAt (twoBlobHost first second) digest = some dir) (files : dir.files = [])
    (symlinks : dir.symlinks = [])
    : w.openDirectory ["w"] digest (twoBlobHost first second)
      = .ok dir (twoBlobHost first second) := by
  have isDir : (twoBlobHost first second).volume.entries ["w"] = some .dir := by
    simp only [twoBlobHost, Volume.add, List.nil_append, Function.update_self]
  have made : onVolume (Volume.mkdirAll ["w"]) (twoBlobHost first second)
      = .ok () (twoBlobHost first second) := by
    simp only [onVolume, Volume.mkdirAll_of_dir isDir]
  rw [openDirectory, run_bind_ok made, run_bind_ok (fetchDirectory_ok found), files, symlinks]
  rfl

/-- A directory that is uploaded under a hash which it names itself is staged inside itself
without end: at every depth there is a further call.
-/
theorem self_reference_endless
    : ∃ (s : LocalStore.Contents Bool) (host : Host),
        LocalStore.Contents.machine.Reachable Machine.anyStep s ∧ host.Holds s.files
        ∧ Server.ValidDigest (digestOfByte 2)
        ∧ ∀ result, ¬ (byteStager (nestingDirectory "." 2) .empty).Returns
            ⟨host, ["w"], digestOfByte 2⟩ result := by
  obtain ⟨s, reach, holds⟩ := twoBlobs_reachable 1 1
  have valid : Server.ValidDigest (digestOfByte 2) := by decide
  have same : Path.join ["w"] "." = ["w"] := by decide
  refine ⟨s, _, reach, holds, valid, ?_⟩
  have opened : (byteStager (nestingDirectory "." 2) .empty).openDirectory ["w"] (digestOfByte 2)
      (twoBlobHost 1 1) = .ok (nestingDirectory "." 2) (twoBlobHost 1 1) :=
    twoBlobs_opened (by decide) rfl rfl
  have deeper depth below
      : (byteStager (nestingDirectory "." 2) .empty).stageUpTo below depth ["w"] (digestOfByte 2)
          (twoBlobHost 1 1)
        = below ["w"] (digestOfByte 2) (twoBlobHost 1 1) := by
    induction depth with
    | zero => rfl
    | succ depth ih =>
        rw [stageUpTo, run_bind_ok opened, nestingDirectory, List.forM_cons, List.forM_nil,
          bind_pure_unit, stageSubdirectory,
          run_bind_ok (newFromProto_ok (Server.Sdk.plain.valid _ valid)), same]
        exact ih
  rintro result ⟨depth, ends⟩
  have first := (deeper depth _).symm.trans (ends (fun _ _ => pure ()))
  have second := (deeper depth _).symm.trans (ends (fun _ _ => throw (.failed (.plain "stop"))))
  cases first.trans second.symm

/-- A directory with an empty directory inside is staged by a recursion that ends. -/
theorem nested_directory_finite
    : ∃ (s : LocalStore.Contents Bool) (host : Host),
        LocalStore.Contents.machine.Reachable Machine.anyStep s ∧ host.Holds s.files
        ∧ (∃ next, (byteStager .empty (nestingDirectory "d" 1)).Calls
            ⟨host, ["w"], digestOfByte 2⟩ next)
        ∧ ∃ result, (byteStager .empty (nestingDirectory "d" 1)).Returns
            ⟨host, ["w"], digestOfByte 2⟩ result ∧ ¬ Panics result := by
  obtain ⟨s, reach, holds⟩ := twoBlobs_reachable 1 2
  have valid : Server.ValidDigest (digestOfByte 1) := by decide
  have root : (byteStager .empty (nestingDirectory "d" 1)).directoryAt (twoBlobHost 1 2)
      (digestOfByte 2) = some (nestingDirectory "d" 1) := by decide
  have opened := twoBlobs_opened root rfl rfl
  have inner : (byteStager .empty (nestingDirectory "d" 1)).directoryAt (twoBlobHost 1 2)
      (digestOfByte 1) = some .empty := by decide
  -- the only call is that of the subdirectory, on the disk as it was, and it makes none
  have only : ∀ hashes last, (byteStager .empty (nestingDirectory "d" 1)).Nested
      ⟨twoBlobHost 1 2, ["w"], digestOfByte 2⟩ hashes last →
      hashes = [] ∧ last = ⟨twoBlobHost 1 2, ["w"], digestOfByte 2⟩
        ∨ hashes = [(digestOfByte 2).hash] ∧ last.host = twoBlobHost 1 2
          ∧ last.digest = digestOfByte 1 := by
    intro hashes last nested
    induction nested with
    | here => exact .inl ⟨rfl, rfl⟩
    | inner nested calls ih =>
        obtain ⟨opened', split, staged, valid'⟩ := calls
        rcases ih with ⟨rfl, rfl⟩ | ⟨-, host, digest⟩
        · obtain ⟨rfl, rfl⟩ := EStateM.Result.ok.inj (opened.symm.trans opened')
          rcases List.append_eq_singleton_iff.mp split.symm with ⟨rfl, single⟩ | ⟨-, nothing⟩
          · obtain ⟨rfl, -⟩ := List.cons.inj single
            obtain ⟨-, rfl⟩ := EStateM.Result.ok.inj (staged (fun _ _ => pure ()))
            obtain ⟨same, -⟩ := Server.Sdk.plain.valid_of_newFromProto valid'
            exact .inr ⟨rfl, rfl, (Option.some.inj same).symm⟩
          · cases nothing
        · have read := ((openDirectory_ends _ _ _).of_eq_ok opened').2
          rw [host, digest, inner] at read
          obtain rfl := Option.some.inj read
          cases (List.append_eq_nil_iff.mp split.symm).2
  have acyclic : (byteStager .empty (nestingDirectory "d" 1)).Acyclic
      ⟨twoBlobHost 1 2, ["w"], digestOfByte 2⟩ := by
    intro hashes last nested
    rcases only hashes last nested with ⟨rfl, -⟩ | ⟨rfl, -, digest⟩
    · exact List.not_mem_nil
    · rw [digest]
      decide
  have complete : (byteStager .empty (nestingDirectory "d" 1)).Complete
      ⟨twoBlobHost 1 2, ["w"], digestOfByte 2⟩ := by
    intro hashes last dir nested found
    rcases only hashes last nested with ⟨-, rfl⟩ | ⟨-, host, digest⟩
    · obtain rfl := Option.some.inj (root.symm.trans found)
      exact ⟨by decide, by decide⟩
    · rw [host, digest, inner] at found
      obtain rfl := Option.some.inj found
      exact ⟨by decide, by decide⟩
  obtain ⟨result, returns, calm, -⟩ := staging_finite reach _ holds _ _ acyclic complete
  have calls := @Calls.subdirectory _ ⟨twoBlobHost 1 2, ["w"], digestOfByte 2⟩ _ _ []
    ⟨"d", some (digestOfByte 1)⟩ [] _ _ 0 opened rfl (fun _ => rfl)
    (Server.Sdk.plain.valid _ valid)
  exact ⟨s, _, reach, holds, ⟨_, calls⟩, result, returns, calm⟩

end Stager

end GoREgo.Worker
