import GoREgo.Janitor.Cleanup
import GoREgo.Storage.Disk

/-! One `LocalStore.Put` beside a janitor: where the data of the call is at each of its
filesystem calls, and what the call does as long as nothing fails on its own and nobody takes
its files away.
-/

namespace GoREgo.Janitor

open Lib LocalStore Disk

variable {Call Src : Type}

structure Fill where
  rest : Bytes
  fd : Nat := 0
  pc : Put := .mkdirAll
deriving DecidableEq, Repr

namespace Fill

/-- A filesystem call of the `Put` with its outcome, or a read of its reader. -/
inductive Event
  | disk (outcome : Outcome)
  | read (read : Proxy.Read)
deriving DecidableEq, Repr

def fresh (fill : Fill) : Bool :=
  match fill.pc with
  | .mkdirAll | .createTemp => true
  | _ => false

def renames (fill : Fill) : Bool :=
  match fill.pc with
  | .rename _ => true
  | _ => false

/-- The path that leads to the data and that a later filesystem call needs. -/
def place (call : Call) (digest : Digest) (fill : Fill) : Option (Path Call Src) :=
  match fill.pc with
  | .copy _ | .close _ | .rename _ => some (.temp call)
  | .chmod => some (.cas digest.hash)
  | _ => none

def Whole (fs : Fs Call Src) (data : Bytes) (fill : Fill) : Prop :=
  match fill.pc with
  | .mkdirAll | .createTemp => fill.rest = data
  | .copy written => fs.contents fill.fd = written ∧ written ++ fill.rest = data
  | .close written | .rename written => fs.contents fill.fd = data ∧ written = data
  | .chmod => fs.contents fill.fd = data
  | .deferred _ err | .returned _ err => err = none

theorem Whole.of_contents {fs fs' : Fs Call Src} {data : Bytes} {fill : Fill}
    (whole : fill.Whole fs data) (same : fs'.contents = fs.contents)
    : fill.Whole fs' data := by
  unfold Whole at whole ⊢
  rw [same]
  exact whole

structure Intact (call : Call) (digest : Digest) (data : Bytes) (fs : Fs Call Src)
    (fill : Fill) : Prop where
  whole : fill.Whole fs data
  placed : ∀ path, fill.place call digest = some path → fs.names path = some fill.fd
  absent : fill.fresh = true → fs.names (.temp call) = none

def rank (fill : Fill) : Nat :=
  match fill.pc with
  | .mkdirAll => fill.rest.length + 8
  | .createTemp => fill.rest.length + 7
  | .copy _ => fill.rest.length + 6
  | .close _ => 5
  | .rename _ => 4
  | .chmod => 3
  | .deferred _ _ => 2
  | .returned _ _ => 1

variable [DecidableEq Call] [DecidableEq Src]

/-- One step of the `Put`, as in the store with any number of calls. The blobs that it meets are
regular files.
-/
def step (call : Call) (digest : Digest) (fs : Fs Call Src) (fill : Fill)
    : Event → Option (Fs Call Src × Fill)
  | .disk outcome => do
      let (fs', fd) ← putCall fs.names fs call digest fill.fd fill.pc outcome
      let (_, pc) ← fill.pc.disk digest (casFiles fs) outcome
      some (fs', { fill with fd, pc })
  | .read read => do
      let rest ← read.after fill.rest
      match read with
      | .data bytes => do
          let pc ← fill.pc.write bytes
          some (fs.append fill.fd bytes, { fill with rest, pc })
      | .error err => do
          let pc ← fill.pc.endCopy digest err
          some (fs, { fill with rest, pc })

def toPc (fill : Fill) : Pc :=
  .put fill.rest fill.fd fill.pc

/-- The filesystem calls of the `Put` are those of a call of the shared store. -/
theorem diskStep_eq {world : World Call Src} {call : Call} {digest : Digest} {data : Bytes}
    (request : world.request call = .put digest data) (fs : Fs Call Src) (fill : Fill)
    (outcome : Outcome)
    : diskStep world fs.names fs call fill.toPc outcome
      = (fill.step call digest fs (.disk outcome)).map (fun next => (next.1, next.2.toPc)) := by
  simp only [diskStep, request, toPc, step]
  cases putCall fs.names fs call digest fill.fd fill.pc outcome with
  | none => rfl
  | some pair =>
      cases fill.pc.disk digest (casFiles fs) outcome <;> simp

/-- The reads of the `Put` are those of a call of the shared store. -/
theorem readStep_eq {world : World Call Src} {call : Call} {digest : Digest} {data : Bytes}
    (request : world.request call = .put digest data) (fs : Fs Call Src) (fill : Fill)
    (read : Proxy.Read)
    : readStep world fs call fill.toPc read
      = (fill.step call digest fs (.read read)).map (fun next => (next.1, next.2.toPc)) := by
  simp only [readStep, request, toPc, step]
  cases after : read.after fill.rest with
  | none => rfl
  | some left =>
      cases read with
      | data bytes => cases moved : fill.pc.write bytes <;> simp [moved]
      | error err => cases moved : fill.pc.endCopy digest err <;> simp [moved]

/-- Whether a step fails on its own: a filesystem call that could succeed, or a reader that
ends with anything but `io.EOF`.
-/
def fails (call : Call) (digest : Digest) (fs : Fs Call Src) (fill : Fill) : Event → Bool
  | .disk .ok => false
  | .disk (.fail _) => (putCall fs.names fs call digest fill.fd fill.pc .ok).isSome
  | .read (.data _) => false
  | .read (.error .eof) => false
  | .read (.error _) => true

inductive Advance (call : Call) (digest : Digest) (fs : Fs Call Src)
    : Fill → Fs Call Src → Fill → Prop
  | mkdirs (rest : Bytes) (fd : Nat)
    : Advance call digest fs ⟨rest, fd, .mkdirAll⟩ fs ⟨rest, fd, .createTemp⟩
  | creates (rest : Bytes) (fd : Nat) (fs' : Fs Call Src)
    (created : fs.create (.temp call) = some fs')
    : Advance call digest fs ⟨rest, fd, .createTemp⟩ fs' ⟨rest, fs.next, .copy []⟩
  | copies (written bytes rest : Bytes) (fd : Nat)
    : Advance call digest fs ⟨bytes ++ rest, fd, .copy written⟩ (fs.append fd bytes)
        ⟨rest, fd, .copy (written ++ bytes)⟩
  | ends (written : Bytes) (fd : Nat)
    : Advance call digest fs ⟨[], fd, .copy written⟩ fs ⟨[], fd, .close written⟩
  | closes (rest written : Bytes) (fd : Nat)
    : Advance call digest fs ⟨rest, fd, .close written⟩ fs ⟨rest, fd, .rename written⟩
  | renames (rest written : Bytes) (fd : Nat) (fs' : Fs Call Src)
    (renamed : fs.rename (.temp call) (.cas digest.hash) = some fs')
    : Advance call digest fs ⟨rest, fd, .rename written⟩ fs' ⟨rest, fd, .chmod⟩
  | chmods (rest : Bytes) (fd : Nat)
    : Advance call digest fs ⟨rest, fd, .chmod⟩ fs ⟨rest, fd, .deferred none none⟩
  | removes (rest : Bytes) (fd : Nat) (temp : Option Bytes)
    : Advance call digest fs ⟨rest, fd, .deferred temp none⟩ (fs.discard (.temp call))
        ⟨rest, fd, .returned none none⟩

variable {call : Call} {digest : Digest} {data : Bytes} {fs fs' : Fs Call Src}
variable {fill fill' : Fill}

/-- A filesystem call that does not fail on its own advances the `Put`, by cases over the
call. The rename and the `Chmod` find their files where the data is.
-/
theorem Intact.disk_advance (intact : Intact call digest data fs fill) {outcome : Outcome}
    (unfailed : fill.fails call digest fs (.disk outcome) = false)
    (taken : fill.step call digest fs (.disk outcome) = some (fs', fill'))
    : Advance call digest fs fill fs' fill' := by
  obtain ⟨rest, fd, pc⟩ := fill
  obtain ⟨⟨fs₁, fd'⟩, made, moves⟩ := Option.bind_eq_some_iff.mp taken
  obtain ⟨⟨_, pc'⟩, next, same⟩ := Option.bind_eq_some_iff.mp moves
  cases same
  cases outcome with
  | fail err =>
      -- The call could have succeeded, so its failure is one of its own.
      exfalso
      cases pc with
      | mkdirAll | copy | close | deferred | returned => cases unfailed
      | createTemp =>
          have free : fs.names (.temp call) = none := intact.absent rfl
          simp [fails, putCall, FileSystem.create, free] at unfailed
      | rename written =>
          have found := intact.placed (.temp call) rfl
          simp only [fails, putCall, Option.isSome_map] at unfailed
          obtain ⟨renamed, moved⟩ := FileSystem.exists_rename (.cas digest.hash) found
          rw [moved] at unfailed
          cases unfailed
      | chmod =>
          have found := intact.placed (.cas digest.hash) rfl
          simp [fails, putCall, found] at unfailed
  | ok =>
      cases pc with
      | mkdirAll =>
          cases made
          cases next
          exact .mkdirs rest fd
      | createTemp =>
          cases next
          obtain ⟨_, created, same⟩ := Option.map_eq_some_iff.mp made
          cases same
          exact .creates rest fd fs' created
      | copy | returned => cases next
      | close written =>
          cases made
          cases next
          exact .closes rest written fd
      | rename written =>
          cases next
          obtain ⟨_, renamed, same⟩ := Option.map_eq_some_iff.mp made
          cases same
          exact .renames rest written fd fs' renamed
      | chmod =>
          cases next
          obtain ⟨_, same⟩ := Option.ite_none_right_eq_some.mp made
          cases same
          exact .chmods rest fd
      | deferred temp err =>
          cases made
          cases next
          obtain rfl : err = none := intact.whole
          exact .removes rest fd temp

theorem Intact.read_advance (intact : Intact call digest data fs fill)
    (size : (data.length : Int) = digest.sizeBytes) {read : Proxy.Read}
    (unfailed : fill.fails call digest fs (.read read) = false)
    (taken : fill.step call digest fs (.read read) = some (fs', fill'))
    : Advance call digest fs fill fs' fill' := by
  obtain ⟨rest, fd, pc⟩ := fill
  obtain ⟨left, after, moves⟩ := Option.bind_eq_some_iff.mp taken
  cases read with
  | data bytes =>
      obtain ⟨pc', next, same⟩ := Option.bind_eq_some_iff.mp moves
      cases same
      cases pc <;> cases next
      obtain ⟨isPrefix, same⟩ := Option.ite_none_right_eq_some.mp after
      obtain ⟨tail, rfl⟩ := List.isPrefixOf_iff_prefix.mp isPrefix
      obtain rfl : tail = left := by
        simpa only [List.drop_left, Option.some.injEq] using same
      exact .copies _ bytes tail fd
  | error err =>
      cases err with
      | closedPipe | other => cases unfailed
      | eof =>
          obtain ⟨pc', next, same⟩ := Option.bind_eq_some_iff.mp moves
          cases same
          cases pc with
          | copy written =>
              obtain ⟨empty, same⟩ := Option.ite_none_right_eq_some.mp after
              cases same
              obtain rfl := List.isEmpty_iff.mp empty
              obtain ⟨_, whole⟩ := intact.whole
              have length : (written.length : Int) = digest.sizeBytes := by
                rw [← size, ← whole, List.append_nil]
              simp only [Put.endCopy, length, if_true, Option.some.injEq] at next
              subst next
              exact .ends written fd
          | _ => cases next

theorem Intact.advance (intact : Intact call digest data fs fill)
    (size : (data.length : Int) = digest.sizeBytes) {event : Event}
    (unfailed : fill.fails call digest fs event = false)
    (taken : fill.step call digest fs event = some (fs', fill'))
    : Advance call digest fs fill fs' fill' := by
  cases event with
  | disk outcome => exact intact.disk_advance unfailed taken
  | read read => exact intact.read_advance size unfailed taken

theorem Advance.intact (advance : Advance call digest fs fill fs' fill')
    (intact : Intact call digest data fs fill)
    : Intact call digest data fs' fill' := by
  cases advance with
  | mkdirs => exact ⟨intact.whole, nofun, intact.absent⟩
  | creates rest fd fs' created =>
      obtain ⟨-, names, contents, -⟩ := FileSystem.create_spec created
      refine ⟨⟨?_, intact.whole⟩, ?_, nofun⟩
      · rw [contents, Function.update_self]
      · rintro path same
        cases same
        rw [names, Function.update_self]
  | copies written bytes rest fd =>
      obtain ⟨contents, whole⟩ := intact.whole
      refine ⟨⟨?_, ?_⟩, intact.placed, nofun⟩
      · rw [← contents]
        exact Function.update_self ..
      · rw [List.append_assoc]
        exact whole
  | ends written fd =>
      obtain ⟨contents, whole⟩ := intact.whole
      rw [List.append_nil] at whole
      exact ⟨⟨contents.trans whole, whole⟩, intact.placed, nofun⟩
  | closes => exact ⟨intact.whole, intact.placed, nofun⟩
  | renames rest written fd fs' renamed =>
      obtain ⟨names, contents⟩ := FileSystem.names_rename renamed nofun
      refine ⟨?_, ?_, nofun⟩
      · exact (congrFun contents fd).trans intact.whole.1
      · rintro path same
        cases same
        exact names.trans (intact.placed (.temp call) rfl)
  | chmods => exact ⟨rfl, nofun, nofun⟩
  | removes => exact ⟨rfl, nofun, nofun⟩

theorem Intact.exists_advance (intact : Intact call digest data fs fill)
    (size : (data.length : Int) = digest.sizeBytes)
    (running : ∀ temp err, fill.pc ≠ .returned temp err)
    : ∃ event fs' fill', fill.fails call digest fs event = false
        ∧ fill.step call digest fs event = some (fs', fill') ∧ fill'.rank < fill.rank := by
  obtain ⟨rest, fd, pc⟩ := fill
  cases pc with
  | mkdirAll =>
      exact ⟨.disk .ok, fs, ⟨rest, fd, .createTemp⟩, rfl, rfl, Nat.lt_succ_self _⟩
  | createTemp =>
      have free : fs.names (.temp call) = none := intact.absent rfl
      obtain ⟨fs', created⟩ := FileSystem.exists_create free
      refine ⟨.disk .ok, fs', ⟨rest, fs.next, .copy []⟩, rfl, ?_, Nat.lt_succ_self _⟩
      simp [step, putCall, created, Put.disk]
  | copy written =>
      cases rest with
      | nil =>
          refine ⟨.read (.error .eof), fs, ⟨[], fd, .close written⟩, rfl, ?_,
            Nat.lt_succ_self _⟩
          have length : (written.length : Int) = digest.sizeBytes := by
            rw [← size, ← intact.whole.2, List.append_nil]
          simp [step, Proxy.Read.after, Put.endCopy, length]
      | cons byte rest =>
          refine ⟨.read (.data [byte]), fs.append fd [byte],
            ⟨rest, fd, .copy (written ++ [byte])⟩, rfl, ?_, Nat.lt_succ_self _⟩
          simp [step, Proxy.Read.after, Put.write]
  | close written =>
      exact ⟨.disk .ok, fs, ⟨rest, fd, .rename written⟩, rfl, rfl, Nat.lt_succ_self _⟩
  | rename written =>
      obtain ⟨fs', renamed⟩ :=
        FileSystem.exists_rename (.cas digest.hash) (intact.placed (.temp call) rfl)
      refine ⟨.disk .ok, fs', ⟨rest, fd, .chmod⟩, rfl, ?_, Nat.lt_succ_self _⟩
      simp [step, putCall, renamed, Put.disk]
  | chmod =>
      have found := intact.placed (.cas digest.hash) rfl
      refine ⟨.disk .ok, fs, ⟨rest, fd, .deferred none none⟩, rfl, ?_, Nat.lt_succ_self _⟩
      simp [step, putCall, found, Put.disk]
  | deferred temp err =>
      exact ⟨.disk .ok, fs.discard (.temp call), ⟨rest, fd, .returned none err⟩, rfl, rfl,
        Nat.lt_succ_self _⟩
  | returned temp err => exact absurd rfl (running temp err)

end Fill

def fullCache : Config (Path Unit Unit) where
  maxSize := 0
  minAge := 30
  inRoot _ := true

def oldBlob : Fs Unit Unit :=
  ((((FileSystem.empty.create (.cas "00ff")).getD .empty).append 0 [1]).tick 100)

end GoREgo.Janitor
