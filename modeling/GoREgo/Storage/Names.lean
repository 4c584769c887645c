import GoREgo.Storage.Disk

/-! Which steps of a local store take a name away: a call renames or removes its own temporary
file, and a source is unlinked by its owner. Every other name stays.
-/

namespace GoREgo.Disk

open Lib LocalStore

variable {Call Src : Type}

def Keeps (fs fs' : Fs Call Src) (path : Path Call Src) : Prop :=
  (fs.names path).isSome → (fs'.names path).isSome

def Pc.unlinks : Pc → Bool
  | .put _ _ (.rename _) | .put _ _ (.deferred _ _) => true
  | .putFile _ _ (.rename _) | .putFile _ _ (.deferred _ _) => true
  | .update _ (.rename _) | .update _ (.deferred _ _) => true
  | _ => false

variable {fs fs' : Fs Call Src} {path target source : Path Call Src} {call : Call}

theorem Keeps.of_names (same : fs'.names = fs.names) : Keeps fs fs' path := by
  rw [Keeps, same]
  exact id

variable [DecidableEq Call] [DecidableEq Src]

theorem Keeps.of_point {inode : Nat}
    (names : fs'.names = Function.update fs.names target (some inode))
    : Keeps fs fs' path := by
  intro there
  rw [names, Function.update_apply]
  split
  · rfl
  · exact there

theorem Keeps.of_unlink (names : fs'.names = Function.update fs.names source none)
    (differs : path ≠ source)
    : Keeps fs fs' path := by
  rw [Keeps, names, Function.update_of_ne differs]
  exact id

theorem Keeps.create (created : fs.create target = some fs') : Keeps fs fs' path :=
  .of_point (FileSystem.create_spec created).2.1

theorem Keeps.link (linked : fs.link source target = some fs') : Keeps fs fs' path := by
  obtain ⟨inode, -, -, names, -⟩ := FileSystem.link_spec linked
  exact .of_point names

theorem Keeps.rename (renamed : fs.rename source target = some fs') (differs : path ≠ source)
    : Keeps fs fs' path := by
  obtain ⟨inode, -, ⟨-, rfl⟩ | ⟨names, -⟩⟩ := FileSystem.rename_spec renamed
  · exact id
  · intro there
    rw [names, Function.update_of_ne differs, Function.update_apply]
    split
    · rfl
    · exact there

theorem Keeps.createOrTruncate (made : fs.createOrTruncate target = some fs')
    : Keeps fs fs' path := by
  unfold FileSystem.createOrTruncate at made
  split at made
  · cases made
    exact id
  · exact .create made

variable {digest : Digest} {fd fd' : Nat} {outcome : Outcome} {world : World Call Src}
  {see : Path Call Src → Option Nat}

theorem putCall_keeps {rest : Bytes} {pc : Put}
    (made : putCall see fs call digest fd pc outcome = some (fs', fd'))
    (stays : outcome = .ok → path ≠ .temp call ∨ (Pc.put rest fd pc).unlinks = false)
    : Keeps fs fs' path := by
  cases outcome with
  | fail err =>
      cases made
      exact id
  | ok =>
      cases pc with
      | mkdirAll | copy | close | returned =>
          cases made
          exact id
      | createTemp =>
          obtain ⟨_, created, same⟩ := Option.map_eq_some_iff.mp made
          cases same
          exact .create created
      | rename written =>
          obtain ⟨_, renamed, same⟩ := Option.map_eq_some_iff.mp made
          cases same
          exact .rename renamed ((stays rfl).resolve_right nofun)
      | chmod =>
          obtain ⟨_, same⟩ := Option.ite_none_right_eq_some.mp made
          cases same
          exact id
      | deferred =>
          cases made
          exact .of_unlink (FileSystem.discard_spec fs _).1 ((stays rfl).resolve_right nofun)

theorem putFileCall_keeps {force : Bool} {src : Src} {input input' : Nat} {pc : PutFile}
    (made : putFileCall force see fs call digest src input fd pc outcome = some (fs', input', fd'))
    (stays : outcome = .ok → path ≠ .temp call ∨ (Pc.putFile input fd pc).unlinks = false)
    : Keeps fs fs' path := by
  cases outcome with
  | fail err =>
      cases made
      exact id
  | ok =>
      cases pc with
      | mkdirAll | copy | close | returned =>
          cases made
          exact id
      | stat =>
          cases made
          split
          · exact .of_names (chtimes_spec fs _).1
          · exact id
      | link =>
          obtain ⟨_, linked, same⟩ := Option.map_eq_some_iff.mp made
          cases same
          exact .link linked
      | «open» =>
          obtain ⟨_, _, same⟩ := Option.map_eq_some_iff.mp made
          cases same
          exact id
      | create =>
          obtain ⟨_, created, same⟩ := Option.map_eq_some_iff.mp made
          cases same
          exact .createOrTruncate created
      | chmod =>
          obtain ⟨_, same⟩ := Option.ite_none_right_eq_some.mp made
          cases same
          exact id
      | rename written =>
          obtain ⟨_, renamed, same⟩ := Option.map_eq_some_iff.mp made
          cases same
          exact .rename renamed ((stays rfl).resolve_right nofun)
      | deferred =>
          cases made
          split
          · exact .of_unlink (FileSystem.discard_spec fs _).1 ((stays rfl).resolve_right nofun)
          · exact id

theorem updateCall_keeps {pc : UpdateActionResult}
    (made : updateCall fs call digest fd pc outcome = some (fs', fd'))
    (stays : outcome = .ok → path ≠ .temp call ∨ (Pc.update fd pc).unlinks = false)
    : Keeps fs fs' path := by
  cases outcome with
  | fail err =>
      cases made
      exact id
  | ok =>
      cases pc with
      | marshal | mkdirAll | write | close | returned =>
          cases made
          exact id
      | createTemp =>
          obtain ⟨_, created, same⟩ := Option.map_eq_some_iff.mp made
          cases same
          exact .create created
      | rename written =>
          obtain ⟨_, renamed, same⟩ := Option.map_eq_some_iff.mp made
          cases same
          exact .rename renamed ((stays rfl).resolve_right nofun)
      | deferred =>
          cases made
          exact .of_unlink (FileSystem.discard_spec fs _).1 ((stays rfl).resolve_right nofun)

omit [DecidableEq Call] [DecidableEq Src] in
theorem getDisk_keeps {force : Bool} {pc pc' : Get}
    (moved : pc.disk force see fs digest outcome = some (fs', pc'))
    : Keeps fs fs' path := by
  unfold Get.disk at moved
  split at moved
  · obtain ⟨_, _, same⟩ := Option.map_eq_some_iff.mp moved
    cases same
    exact id
  · cases moved
    exact id
  · cases moved
    exact .of_names (chtimes_spec fs _).1
  · cases moved
    exact id
  · cases moved

theorem diskStep_keeps {pc pc' : Pc}
    (taken : diskStep world see fs call pc outcome = some (fs', pc'))
    (stays : outcome = .ok → path ≠ .temp call ∨ pc.unlinks = false)
    : Keeps fs fs' path := by
  unfold diskStep at taken
  split at taken
  · obtain ⟨_, made, later⟩ := Option.bind_eq_some_iff.mp taken
    obtain ⟨_, -, same⟩ := Option.bind_eq_some_iff.mp later
    cases same
    exact putCall_keeps made stays
  · obtain ⟨_, made, later⟩ := Option.bind_eq_some_iff.mp taken
    obtain ⟨_, -, same⟩ := Option.bind_eq_some_iff.mp later
    cases same
    exact putFileCall_keeps made stays
  · obtain ⟨_, made, later⟩ := Option.bind_eq_some_iff.mp taken
    obtain ⟨_, -, same⟩ := Option.bind_eq_some_iff.mp later
    cases same
    exact updateCall_keeps made stays
  · obtain ⟨_, moved, same⟩ := Option.bind_eq_some_iff.mp taken
    cases same
    exact getDisk_keeps moved
  · obtain ⟨_, -, same⟩ := Option.bind_eq_some_iff.mp taken
    cases same
    exact id
  · cases taken

omit [DecidableEq Call] [DecidableEq Src] in
theorem readStep_keeps {pc pc' : Pc} {read : Proxy.Read}
    (taken : readStep world fs call pc read = some (fs', pc'))
    : Keeps fs fs' path := by
  unfold readStep at taken
  split at taken
  · obtain ⟨_, -, later⟩ := Option.bind_eq_some_iff.mp taken
    split at later
    all_goals
      obtain ⟨_, -, same⟩ := Option.bind_eq_some_iff.mp later
      cases same
      exact id
  · cases taken

omit [DecidableEq Call] [DecidableEq Src] in
theorem chunkStep_keeps {pc pc' : Pc} {count : Nat}
    (taken : chunkStep fs pc count = some (fs', pc'))
    : Keeps fs fs' path := by
  unfold chunkStep at taken
  split at taken
  · cases taken
    exact id
  · cases taken
    exact id
  · cases taken
    exact id
  · cases taken

/-- A name below the root directory stays unless it is the temporary file of a call that renames
or removes it in this step.
-/
theorem step_keeps {s s' : State Call Src} {label : Label Call Src}
    (taken : step world s label = some s') (below : ∀ src, path ≠ .source src)
    (stays : ∀ call, label = .disk call .ok → path ≠ .temp call ∨ (s.pcs call).unlinks = false)
    : Keeps s.fs s'.fs path := by
  cases label with
  | disk call outcome =>
      obtain ⟨next, moved, rfl⟩ := Option.map_eq_some_iff.mp taken
      exact diskStep_keeps moved (fun worked => stays call (congrArg (Label.disk call) worked))
  | read call read =>
      obtain ⟨next, moved, rfl⟩ := Option.map_eq_some_iff.mp taken
      exact readStep_keeps moved
  | chunk call count =>
      obtain ⟨next, moved, rfl⟩ := Option.map_eq_some_iff.mp taken
      exact chunkStep_keeps moved
  | appear src =>
      obtain ⟨_, created, rfl⟩ := Option.map_eq_some_iff.mp taken
      exact .of_point (FileSystem.create_spec created).2.1
  | stage hash src =>
      obtain ⟨-, linked⟩ := Option.ite_none_right_eq_some.mp taken
      obtain ⟨_, made, rfl⟩ := Option.map_eq_some_iff.mp linked
      exact .link made
  | vanish src =>
      obtain ⟨_, removed, rfl⟩ := Option.map_eq_some_iff.mp taken
      exact .of_unlink (FileSystem.remove_spec removed).1 (below src)
  | tick duration =>
      cases taken
      exact id

end GoREgo.Disk
