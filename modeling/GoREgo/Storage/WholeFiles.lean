import GoREgo.Storage.DiskInvariant
import GoREgo.Storage.Names

/-! Readers of a local store never see a partial file. Only the temporary file of a running
writer is ever incomplete, no other path leads to it and no reader has it open, so a path of
the CAS or of the AC always holds what one writer wrote as a whole.
-/

namespace GoREgo.Disk

open Lib LocalStore

variable {Call Src : Type}

def Pc.removes : Pc → Bool
  | .put _ _ (.deferred _ _) => true
  | .putFile _ _ (.deferred _ _) => true
  | .update _ (.deferred _ _) => true
  | _ => false

section Steps

variable {world : World Call Src} {links : Symlinks Call Src} {fs fs' : Fs Call Src}
variable {pcs : Call → Pc} {call : Call}

variable [DecidableEq Call]

variable {digest : Digest} {data rest written : Bytes} {fd fd' : Nat} {force : Bool}
variable {outcome : Outcome} {files files' : Files}

/-- A `Put` that reads its next bytes appends them to its own file; at `io.EOF` its file is
complete, and is kept if its length is the one in the digest.
-/
theorem Sound.put_read (sound : Sound world none links fs pcs) {left : Bytes} {pc : Put}
    {read : Proxy.Read} (request : world.request call = .put digest data)
    (stands : pcs call = .put rest fd pc) (after : read.after rest = some left)
    : (∀ bytes pc', read = .data bytes → pc.write bytes = some pc' →
        Sound world none links (fs.append fd bytes) (Function.update pcs call (.put left fd pc')))
      ∧ ∀ err pc', read = .error err → pc.endCopy digest err = some pc' →
        Sound world none links fs (Function.update pcs call (.put left fd pc')) := by
  have moving := sound.release call
  have standing := (standing_put request).mp (stands ▸ sound.standing call nofun)
  constructor
  · rintro bytes pc' rfl next
    cases pc <;> cases next
    obtain ⟨isPrefix, same⟩ := Option.ite_none_right_eq_some.mp after
    obtain ⟨tail, rfl⟩ := List.isPrefixOf_iff_prefix.mp isPrefix
    obtain rfl : tail = left := by
      simpa only [List.drop_left, Option.some.injEq] using same
    obtain ⟨named, contents, whole⟩ := standing
    refine (moving.append (by rw [stands]; rfl) bytes).resume ?_ (by rw [stands]; rfl)
      (by rw [stands]; rfl)
    refine (standing_put request).mpr ⟨named, ?_, ?_⟩
    · rw [← contents]
      exact Function.update_self ..
    · rw [List.append_assoc]
      exact whole
  · rintro err pc' rfl next
    cases pc with
    | copy written =>
        obtain ⟨named, contents, whole⟩ := standing
        cases err with
        | eof =>
            obtain ⟨empty, same⟩ := Option.ite_none_right_eq_some.mp after
            cases same
            obtain rfl := List.isEmpty_iff.mp empty
            rw [List.append_nil] at whole
            subst whole
            simp only [Put.endCopy] at next
            split at next
            · next size =>
              cases next
              exact moving.quiet ((standing_put request).mpr
                ⟨contents ▸ FileSystem.find_of_names named, rfl, size⟩) rfl rfl
            · cases next
              exact moving.quiet ((standing_put request).mpr trivial) rfl rfl
        | closedPipe | other =>
            cases next
            exact moving.quiet ((standing_put request).mpr trivial) rfl rfl
    | _ => cases next

theorem Sound.read (sound : Sound world none links fs pcs) {pc' : Pc} {read : Proxy.Read}
    (taken : readStep world fs call (pcs call) read = some (fs', pc'))
    : Sound world none links fs' (Function.update pcs call pc') := by
  unfold readStep at taken
  split at taken
  · next request stands =>
    obtain ⟨left, after, rest⟩ := Option.bind_eq_some_iff.mp taken
    obtain ⟨data, error⟩ := sound.put_read request stands after
    split at rest
    all_goals
      obtain ⟨next, moved, same⟩ := Option.bind_eq_some_iff.mp rest
      cases same
    · exact data _ _ rfl moved
    · exact error _ _ rfl moved
  · cases taken

theorem Sound.get_disk (sound : Sound world none links fs pcs) {pc pc' : Get}
    (request : world.request call = .get digest) (stands : pcs call = .get pc)
    (next : pc.disk force (seen links fs) fs digest outcome = some (fs', pc'))
    : Sound world none links fs' (Function.update pcs call (.get pc')) := by
  have moving := sound.release call
  obtain ⟨absent, standing⟩ := (standing_get request).mp (stands ▸ sound.standing call nofun)
  cases pc with
  | «open» =>
      cases outcome with
      | fail err =>
          cases next
          exact moving.quiet ((standing_get request).mpr ⟨absent, trivial⟩) rfl rfl
      | ok =>
          obtain ⟨inode, found, same⟩ := Option.map_eq_some_iff.mp next
          cases same
          obtain ⟨whole, path, named, lasting⟩ := sound.seen_shows (by simp) found
          refine moving.opens ((standing_get request).mpr ⟨absent, ?_⟩) rfl ?_ named lasting
          · split <;> exact whole
          · intro other reads
            split at reads <;> exact (Option.some.inj reads).symm
  | chtimes inode =>
      cases outcome with
      | fail err =>
          cases next
          exact moving.resume ((standing_get request).mpr ⟨absent, standing⟩)
            (by rw [stands]; rfl) (by rw [stands]; rfl)
      | ok =>
          cases next
          obtain ⟨names, contents, next⟩ := chtimes_spec fs (seen links fs (.cas digest.hash))
          refine (moving.sameFiles names contents next).resume ?_ (by rw [stands]; rfl)
            (by rw [stands]; rfl)
          have before : GetStanding world fs digest.hash (.returned (.ok inode)) := standing
          exact (standing_get request).mpr
            ⟨names ▸ absent, before.frame (fun other _ => congrFun contents other)⟩
  | returned => cases next

/-- A `GetActionResult` opens complete entries only, and what it has read at the end of the
file is the whole entry.
-/
theorem Sound.getActionResult_disk (sound : Sound world none links fs pcs) {pc pc' : GetActionResult}
    (request : world.request call = .getActionResult digest)
    (stands : pcs call = .getActionResult pc)
    (next : pc.disk world.unmarshal (seen links fs) fs digest outcome = some pc')
    : Sound world none links fs (Function.update pcs call (.getActionResult pc')) := by
  have moving := sound.release call
  obtain ⟨absent, standing⟩ :=
    (standing_getActionResult request).mp (stands ▸ sound.standing call nofun)
  have arrives : ∀ pc', GetActionStanding world fs digest.hash pc' →
      Standing world links fs call (.getActionResult pc') :=
    fun _ reads => (standing_getActionResult request).mpr ⟨absent, reads⟩
  cases pc with
  | «open» =>
      cases outcome with
      | fail err =>
          cases next
          exact moving.quiet (arrives _ trivial) rfl rfl
      | ok =>
          obtain ⟨inode, found, same⟩ := Option.map_eq_some_iff.mp next
          cases same
          obtain ⟨whole, path, named, lasting⟩ := sound.seen_shows (by simp) found
          exact moving.opens (arrives _ ⟨whole, List.nil_prefix⟩) rfl
            (fun _ reads => (Option.some.inj reads).symm) named lasting
  | read inode got =>
      cases outcome with
      | fail err =>
          cases next
          exact moving.quiet (arrives _ trivial) rfl rfl
      | ok =>
          obtain ⟨long, same⟩ := Option.ite_none_right_eq_some.mp next
          cases same
          obtain ⟨entry, part⟩ := standing
          obtain rfl := part.eq_of_length_le long
          exact moving.quiet (arrives _ ⟨entry, rfl⟩) rfl rfl
  | returned => cases next

theorem take_append_chunk (source : Bytes) (part : written <+: source) (count : Nat)
    : written ++ (source.drop written.length).take count
      = source.take (written.length + count) := by
  obtain ⟨rest, rfl⟩ := part
  rw [List.drop_left, List.take_length_add_append]

theorem Sound.chunk (sound : Sound world none links fs pcs) {pc' : Pc} {count : Nat}
    (next : chunkStep fs (pcs call) count = some (fs', pc'))
    : Sound world none links fs' (Function.update pcs call pc') := by
  have moving := sound.release call
  have standing := sound.standing call nofun
  unfold chunkStep at next
  split at next
  · next input fd written stands =>
    cases next
    rw [stands] at standing
    obtain ⟨_, src, request⟩ := standing.putFile_request
    replace standing := (standing_putFile request).mp standing
    obtain ⟨named, contents, source, part⟩ := standing
    have distinct : input ≠ fd := fun same =>
      sound.unread call fd (by rw [stands]; rfl) call (by rw [stands, ← same]; rfl)
    refine (moving.append (by rw [stands]; rfl) _).resume ?_ (by rw [stands]; rfl)
      (by rw [stands]; rfl)
    refine (standing_putFile request).mpr ⟨named, ?_, ?_, ?_⟩
    · rw [source, ← take_append_chunk _ part count, ← contents]
      exact Function.update_self ..
    · exact (Function.update_of_ne distinct _ _).trans source
    · rw [source]
      exact List.take_prefix _ _
  · next fd data written stands =>
    cases next
    rw [stands] at standing
    obtain ⟨_, result, request⟩ := standing.update_request
    replace standing := (standing_update request).mp standing
    obtain ⟨named, contents, marshalled, part⟩ := standing
    refine (moving.append (by rw [stands]; rfl) _).resume ?_ (by rw [stands]; rfl)
      (by rw [stands]; rfl)
    refine (standing_update request).mpr ⟨named, ?_, marshalled, List.take_prefix _ _⟩
    rw [← take_append_chunk _ part count, ← contents]
    exact Function.update_self ..
  · next inode got stands =>
    cases next
    rw [stands] at standing
    obtain ⟨digest, request⟩ := standing.getActionResult_request
    replace standing := (standing_getActionResult request).mp standing
    obtain ⟨absent, entry, _⟩ := standing
    exact moving.resume ((standing_getActionResult request).mpr
      ⟨absent, entry, List.take_prefix _ _⟩) (by rw [stands]; rfl) (by rw [stands]; rfl)
  · cases next

variable [DecidableEq Src]

theorem Sound.put_disk (sound : Sound world none links fs pcs) {pc pc' : Put}
    (request : world.request call = .put digest data) (stands : pcs call = .put rest fd pc)
    (allowed : ∀ err, outcome = .fail err → (Pc.put rest fd pc).removes = false)
    (made : putCall (seen links fs) fs call digest fd pc outcome = some (fs', fd'))
    (next : pc.disk digest files outcome = some (files', pc'))
    : Sound world none links fs' (Function.update pcs call (.put rest fd' pc')) := by
  have moving := sound.release call
  have standing := (standing_put request).mp (stands ▸ sound.standing call nofun)
  cases outcome with
  | fail err =>
      cases made
      cases pc with
      | deferred => exact nomatch allowed err rfl
      | mkdirAll | createTemp =>
          cases next
          exact moving.quiet ((standing_put request).mpr standing.1) rfl rfl
      | copy | close | rename | chmod =>
          cases next
          exact moving.quiet ((standing_put request).mpr trivial) rfl rfl
      | returned => cases next
  | ok =>
      cases pc with
      | mkdirAll | close =>
          cases made
          cases next
          exact moving.quiet ((standing_put request).mpr standing) rfl rfl
      | createTemp =>
          cases next
          obtain ⟨_, created, same⟩ := Option.map_eq_some_iff.mp made
          cases same
          refine moving.makeTemp created ?_ rfl (by rw [stands]; rfl)
          intro named empty _
          exact (standing_put request).mpr ⟨named, empty, standing.2⟩
      | copy | returned => cases next
      | rename written =>
          cases next
          obtain ⟨_, renamed, same⟩ := Option.map_eq_some_iff.mp made
          cases same
          obtain ⟨found, rfl, size⟩ := standing
          refine moving.publish renamed ?_ nofun (by rw [stands]; rfl)
            ((standing_put request).mpr trivial) rfl rfl
          exact sound.temp_fits (by simp [request]) found (.inl ⟨call, digest, request, rfl, size⟩)
            nofun
      | chmod =>
          cases next
          obtain ⟨_, same⟩ := Option.ite_none_right_eq_some.mp made
          cases same
          exact moving.quiet ((standing_put request).mpr trivial) rfl rfl
      | deferred =>
          cases made
          cases next
          exact moving.cleanup (fun _ absent => (standing_put request).mpr absent) rfl rfl

/-- The condition on symbolic links under which a filesystem call of `PutFile` works as meant:
a link that it hard-links leads from the store nowhere or where it led before, and the deferred
`Stat` finds a temporary file that is there.
-/
def putFileLeads (links : Symlinks Call Src) (fs : Fs Call Src) (call : Call) (src : Src)
    : PutFile → Prop
  | .link => ∀ inode ∈ fs.names (.source src), ∀ link ∈ links inode,
      link.inStore = none ∨ link.inStore = some (.source link.file)
  | .deferred _ _ => (fs.names (.temp call)).isSome → (seen links fs (.temp call)).isSome
  | _ => True

theorem Sound.putFile_disk (sound : Sound world none links fs pcs) {src : Src} {input input' : Nat}
    {pc pc' : PutFile} (request : world.request call = .putFile digest src)
    (stands : pcs call = .putFile input fd pc)
    (allowed : ∀ err, outcome = .fail err → (Pc.putFile input fd pc).removes = false)
    (leads : outcome = .ok → putFileLeads links fs call src pc)
    (made : putFileCall force (seen links fs) fs call digest src input fd pc outcome
      = some (fs', input', fd'))
    (next : pc.disk digest (putFileInput (seen links fs) fs src input pc) files outcome
      = some (files', pc'))
    : Sound world none links fs' (Function.update pcs call (.putFile input' fd' pc')) := by
  have moving := sound.release call
  have standing := (standing_putFile request).mp (stands ▸ sound.standing call (by simp))
  cases outcome with
  | fail err =>
      cases made
      cases pc with
      | deferred => cases allowed err rfl
      | stat | mkdirAll | link =>
          cases next
          exact moving.quiet ((standing_putFile request).mpr standing) rfl rfl
      | «open» | create | copy | close | chmod | rename =>
          cases next
          exact moving.quiet ((standing_putFile request).mpr trivial) rfl rfl
      | returned => cases next
  | ok =>
      cases pc with
      | stat =>
          cases made
          have absent : (if force then chtimes fs (seen links fs (.cas digest.hash)) else fs).names
              (.temp call) = none := by
            split
            · rw [(chtimes_spec fs _).1]
              exact standing
            · exact standing
          simp only [PutFile.disk] at next
          split at next
          all_goals
            cases next
            exact (moving.times force _).quiet ((standing_putFile request).mpr absent) rfl rfl
      | mkdirAll =>
          cases made
          cases next
          exact moving.quiet ((standing_putFile request).mpr standing) rfl rfl
      | link =>
          cases next
          obtain ⟨_, linked, same⟩ := Option.map_eq_some_iff.mp made
          cases same
          obtain ⟨inode, found, _, names, contents, next⟩ := FileSystem.link_spec linked
          have fits := sound.named (.source src) inode found
          have pointed : Sound world (some call) links fs' pcs := by
            refine moving.point names contents next ?_
              (fun other same => congrArg some (Path.temp.inj same))
            intro other same
            obtain rfl := Option.some.inj same
            refine ⟨?_, fun writer written => by cases sound.alone writer inode written _ found⟩
            unfold World.Fits at fits ⊢
            cases linked : links inode with
            | none => exact ⟨trivial, by rintro _ ⟨⟩⟩
            | some link =>
                simp only [linked] at fits
                exact ⟨⟨digest, src, request, fits⟩, leads rfl inode found link linked⟩
          refine pointed.quiet ((standing_putFile request).mpr ⟨inode, ?_, fun regular => ?_⟩) rfl
            rfl
          · rw [names, Function.update_self]
          · have whole : putFileInput (seen links fs) fs src input .link = fs.contents inode := by
              have same : seen links fs (.source src) = some inode :=
                (follow_of_regular (fun other named =>
                  Option.some.inj (found.symm.trans named) ▸ regular) _).trans found
              simp only [putFileInput, same, Option.map_some, Option.getD_some]
            simp only [World.Fits, regular] at fits
            exact ⟨(congrFun contents inode).trans whole.symm, whole.trans fits.1⟩
      | «open» =>
          cases next
          obtain ⟨inode, found, same⟩ := Option.map_eq_some_iff.mp made
          cases same
          obtain ⟨whole, path, named, lasting⟩ := sound.seen_shows (by simp) found
          exact moving.opens ((standing_putFile request).mpr ⟨standing, whole⟩) rfl
            (fun _ same => (Option.some.inj same).symm) named lasting
      | create =>
          cases next
          rw [putFileCall, FileSystem.createOrTruncate_of_free standing.1] at made
          obtain ⟨_, created, same⟩ := Option.map_eq_some_iff.mp made
          cases same
          refine moving.makeTemp created ?_ rfl (by rw [stands]; rfl)
          intro named empty kept
          have below := sound.opened call input (by rw [stands]; rfl)
          exact (standing_putFile request).mpr
            ⟨named, empty, (kept input below).trans standing.2, List.nil_prefix⟩
      | copy written =>
          cases made
          obtain ⟨whole, same⟩ := Option.ite_none_right_eq_some.mp next
          cases same
          obtain ⟨named, contents, source, _⟩ := standing
          exact moving.quiet ((standing_putFile request).mpr
            ⟨contents ▸ FileSystem.find_of_names named, whole.trans source⟩) rfl rfl
      | close =>
          cases made
          cases next
          obtain ⟨inode, named, whole⟩ := FileSystem.find_eq_some standing.1
          exact moving.quiet ((standing_putFile request).mpr
            ⟨inode, named, fun _ => ⟨whole, standing.2⟩⟩) rfl rfl
      | chmod =>
          cases next
          obtain ⟨there, same⟩ := Option.ite_none_right_eq_some.mp made
          cases same
          obtain ⟨inode, named, whole⟩ := standing
          refine moving.quiet ((standing_putFile request).mpr ⟨inode, named, whole, ?_⟩) rfl rfl
          intro link linked nowhere
          simp [seen, follow_symlink named linked, Symlink.leads, nowhere] at there
      | rename written =>
          cases next
          obtain ⟨_, renamed, same⟩ := Option.map_eq_some_iff.mp made
          cases same
          obtain ⟨inode, named, whole, led⟩ := standing
          refine moving.publish renamed ?_ (by simp) (by rw [stands]; rfl)
            ((standing_putFile request).mpr trivial) rfl rfl
          intro other named'
          obtain rfl := Option.some.inj (named.symm.trans named')
          have fits := sound.named _ inode named
          unfold World.Fits at fits ⊢
          cases linked : links inode with
          | none =>
              obtain ⟨contents, same⟩ := whole linked
              exact ⟨.inr ⟨call, digest, src, request, rfl, contents.trans same⟩, by rintro _ ⟨⟩⟩
          | some link =>
              simp only [linked] at fits
              obtain ⟨⟨digest', src', request', from_⟩, led'⟩ := fits
              obtain ⟨rfl, rfl⟩ : digest = digest' ∧ src = src' := by
                simpa [request] using request'
              exact ⟨led'.resolve_left (led link linked), call, digest, src, request, rfl, from_⟩
      | deferred =>
          cases made
          cases next
          split
          · exact moving.cleanup (fun _ absent => (standing_putFile request).mpr absent) rfl rfl
          · next gone =>
            refine moving.quiet ((standing_putFile request).mpr ?_) rfl rfl
            exact Option.not_isSome_iff_eq_none.mp (fun there => gone (leads rfl there))
      | returned => cases next

theorem Sound.update_disk (sound : Sound world none links fs pcs) {result : ActionResult}
    {pc pc' : UpdateActionResult} (request : world.request call = .updateActionResult digest result)
    (stands : pcs call = .update fd pc)
    (allowed : ∀ err, outcome = .fail err → (Pc.update fd pc).removes = false)
    (made : updateCall fs call digest fd pc outcome = some (fs', fd'))
    (next : pc.disk digest (world.marshal result) files outcome = some (files', pc'))
    : Sound world none links fs' (Function.update pcs call (.update fd' pc')) := by
  have moving := sound.release call
  have standing := (standing_update request).mp (stands ▸ sound.standing call nofun)
  cases outcome with
  | fail err =>
      cases made
      cases pc with
      | deferred => exact nomatch allowed err rfl
      | marshal =>
          cases next
          exact moving.quiet ((standing_update request).mpr standing) rfl rfl
      | mkdirAll | createTemp =>
          cases next
          exact moving.quiet ((standing_update request).mpr standing.1) rfl rfl
      | write | close | rename =>
          cases next
          exact moving.quiet ((standing_update request).mpr trivial) rfl rfl
      | returned => cases next
  | ok =>
      cases pc with
      | marshal =>
          cases made
          cases next
          exact moving.quiet ((standing_update request).mpr ⟨standing, rfl⟩) rfl rfl
      | mkdirAll | close =>
          cases made
          cases next
          exact moving.quiet ((standing_update request).mpr standing) rfl rfl
      | createTemp =>
          cases next
          obtain ⟨_, created, same⟩ := Option.map_eq_some_iff.mp made
          cases same
          refine moving.makeTemp created ?_ rfl (by rw [stands]; rfl)
          intro named empty _
          exact (standing_update request).mpr ⟨named, empty, standing.2, List.nil_prefix⟩
      | write data written =>
          cases made
          obtain ⟨whole, same⟩ := Option.ite_none_right_eq_some.mp next
          cases same
          obtain ⟨named, contents, marshalled, _⟩ := standing
          exact moving.quiet ((standing_update request).mpr
            ⟨contents ▸ FileSystem.find_of_names named, whole.trans marshalled⟩) rfl rfl
      | rename written =>
          cases next
          obtain ⟨_, renamed, same⟩ := Option.map_eq_some_iff.mp made
          cases same
          obtain ⟨found, whole⟩ := standing
          refine moving.publish renamed ?_ nofun (by rw [stands]; rfl)
            ((standing_update request).mpr trivial) rfl rfl
          exact sound.temp_fits (by simp [request]) found
            ⟨call, digest, result, request, rfl, whole⟩ nofun
      | deferred =>
          cases made
          cases next
          exact moving.cleanup (fun _ absent => (standing_update request).mpr absent) rfl rfl
      | returned => cases next

def linksLead (world : World Call Src) (links : Symlinks Call Src) (fs : Fs Call Src) (call : Call)
    (pc : Pc)
    : Prop :=
  match world.request call, pc with
  | .putFile _ src, .putFile _ _ pc => putFileLeads links fs call src pc
  | _, _ => True

theorem Sound.disk (sound : Sound world none links fs pcs) {pc' : Pc}
    (allowed : ∀ err, outcome = .fail err → (pcs call).removes = false)
    (leads : outcome = .ok → linksLead world links fs call (pcs call))
    (taken : diskStep world (seen links fs) fs call (pcs call) outcome = some (fs', pc'))
    : Sound world none links fs' (Function.update pcs call pc') := by
  unfold diskStep at taken
  split at taken
  · next request stands =>
    obtain ⟨⟨fs₁, fd'⟩, made, rest⟩ := Option.bind_eq_some_iff.mp taken
    obtain ⟨⟨files', next⟩, moved, same⟩ := Option.bind_eq_some_iff.mp rest
    cases same
    exact sound.put_disk request stands (stands ▸ allowed) made moved
  · next request stands =>
    obtain ⟨⟨fs₁, input', fd'⟩, made, rest⟩ := Option.bind_eq_some_iff.mp taken
    obtain ⟨⟨files', next⟩, moved, same⟩ := Option.bind_eq_some_iff.mp rest
    cases same
    refine sound.putFile_disk request stands (stands ▸ allowed) (fun worked => ?_) made moved
    simpa only [linksLead, request, stands] using leads worked
  · next request stands =>
    obtain ⟨⟨fs₁, fd'⟩, made, rest⟩ := Option.bind_eq_some_iff.mp taken
    obtain ⟨⟨files', next⟩, moved, same⟩ := Option.bind_eq_some_iff.mp rest
    cases same
    exact sound.update_disk request stands (stands ▸ allowed) made moved
  · next request stands =>
    obtain ⟨⟨fs₁, next⟩, moved, same⟩ := Option.bind_eq_some_iff.mp taken
    cases same
    exact sound.get_disk request stands moved
  · next request stands =>
    obtain ⟨next, moved, same⟩ := Option.bind_eq_some_iff.mp taken
    cases same
    exact sound.getActionResult_disk request stands moved
  · cases taken

def removalsSucceed (s : State Call Src) : Label Call Src → Prop
  | .disk call (.fail _) => (s.pcs call).removes = false
  | _ => True

/-- The steps in which deferred removals do not fail and symbolic links lead back. -/
def cleansUp (world : World Call Src) (s : State Call Src) : Label Call Src → Prop
  | .disk call (.fail _) => (s.pcs call).removes = false
  | .disk call .ok => linksLead world s.links s.fs call (s.pcs call)
  | _ => True

theorem sound_keeps {s s' : State Call Src} {label : Label Call Src}
    (sound : Sound world none s.links s.fs s.pcs) (allowed : cleansUp world s label)
    (taken : step world s label = some s')
    : Sound world none s'.links s'.fs s'.pcs := by
  cases label with
  | disk call outcome =>
      obtain ⟨next, moved, rfl⟩ := Option.map_eq_some_iff.mp taken
      refine sound.disk ?_ ?_ moved
      · rintro err rfl
        exact allowed
      · rintro rfl
        exact allowed
  | read call read =>
      obtain ⟨next, moved, rfl⟩ := Option.map_eq_some_iff.mp taken
      exact sound.read moved
  | chunk call count =>
      obtain ⟨next, moved, rfl⟩ := Option.map_eq_some_iff.mp taken
      exact sound.chunk moved
  | appear src =>
      obtain ⟨fs₁, created, rfl⟩ := Option.map_eq_some_iff.mp taken
      obtain ⟨-, names, contents, next⟩ := FileSystem.create_spec created
      have others : ∀ inode, inode ≠ s.fs.next →
          Function.update s.links s.fs.next (world.links src) inode = s.links inode :=
        fun _ distinct => Function.update_of_ne distinct _ _
      have written : (fs₁.append s.fs.next (world.raw src)).names
          = Function.update s.fs.names (.source src) (some s.fs.next) := names
      refine sound.make written ?_ next others ?_ ?_ (by simp)
      · intro inode distinct
        simp only [FileSystem.append, contents, Function.update_of_ne distinct]
      · intro link there
        have made := Function.update_self s.fs.next (world.links src) s.links
        exact ⟨src, made.symm.trans there⟩
      · simp only [FileSystem.append, contents, Function.update_self, List.nil_append]
        exact World.fits_source (Function.update_self ..)
  | stage hash src =>
      obtain ⟨⟨same, kind⟩, linked⟩ := Option.ite_none_right_eq_some.mp taken
      obtain ⟨fs₁, made, rfl⟩ := Option.map_eq_some_iff.mp linked
      obtain ⟨inode, found, -, names, contents, next⟩ := FileSystem.link_spec made
      refine sound.point names contents next ?_ (by simp)
      intro other target
      obtain rfl := Option.some.inj target
      refine ⟨?_, fun writer written => by cases sound.alone writer inode written _ found⟩
      have whole := Option.some.inj ((FileSystem.find_of_names found).symm.trans same)
      rw [found, Option.bind_some] at kind
      rw [whole]
      exact World.fits_source kind
  | vanish src =>
      obtain ⟨fs₁, removed, rfl⟩ := Option.map_eq_some_iff.mp taken
      obtain ⟨names, contents, next⟩ := FileSystem.remove_spec removed
      exact sound.point names contents next (by simp) (by simp)
  | tick duration =>
      cases taken
      exact sound.sameFiles rfl rfl rfl

theorem sound_inductive (world : World Call Src)
    : (machine world).Inductive (cleansUp world)
        (fun s => Sound world none s.links s.fs s.pcs) where
  start s initial := by
    subst initial
    exact sound_start world
  keeps _ _ _ sound allowed taken := sound_keeps sound allowed taken

/-- At every moment of every run in which deferred removals do not fail and `PutFile` meets no
symbolic link that leads elsewhere from the store: what is read at a CAS path is the complete
data of one `Put` or `PutFile`, what is read at an AC path is one complete marshalled result, a
call that has returned has left no temporary file, an open blob is complete, and
`GetActionResult` has unmarshalled a complete entry.
-/
theorem readers_see_whole_files (world : World Call Src) (s : State Call Src)
    (reach : (machine world).Reachable (cleansUp world) s)
    : (∀ hash inode, s.see (.cas hash) = some inode → world.Blob hash (s.fs.contents inode))
      ∧ (∀ hash inode, s.see (.ac hash) = some inode → world.Entry hash (s.fs.contents inode))
      ∧ (∀ call, (s.pcs call).hasReturned = true → s.fs.names (.temp call) = none)
      ∧ (∀ call digest inode, world.request call = .get digest →
          s.pcs call = .get (.returned (.ok inode)) →
          world.Blob digest.hash (s.fs.contents inode))
      ∧ ∀ call digest data result, world.request call = .getActionResult digest →
          s.pcs call = .getActionResult (.returned (some data) result) →
          world.Entry digest.hash data ∧ result = world.unmarshal data := by
  have sound := (sound_inductive world).reachable reach
  refine ⟨?_, ?_, ?_, ?_, ?_⟩
  · intro hash inode found
    exact (sound.seen_shows (by simp) found).1
  · intro hash inode found
    exact (sound.seen_shows (by simp) found).1
  · intro call ended
    exact (sound.standing call nofun).returned ended
  · intro call digest inode request stands
    exact ((standing_get request).mp (stands ▸ sound.standing call nofun)).2
  · intro call digest data result request stands
    exact ((standing_getActionResult request).mp (stands ▸ sound.standing call nofun)).2

theorem directories_renameCas {hash : String}
    (renamed : fs.rename (.temp call) (.cas hash) = some fs')
    (found : fs.find (.temp call) = some written)
    : casFiles fs' = Function.update (casFiles fs) hash (some written)
      ∧ acFiles fs' = acFiles fs := by
  constructor
  · funext other
    have distinct : (.cas other : Path Call Src) ≠ .temp call := nofun
    refine (FileSystem.find_rename renamed found distinct).trans ?_
    simp only [Path.cas.injEq, Function.update_apply, casFiles]
  · funext other
    have distinct : (.ac other : Path Call Src) ≠ .temp call := nofun
    exact (FileSystem.find_rename renamed found distinct).trans (if_neg nofun)

theorem directories_renameAc {hash : String}
    (renamed : fs.rename (.temp call) (.ac hash) = some fs')
    (found : fs.find (.temp call) = some written)
    : acFiles fs' = Function.update (acFiles fs) hash (some written)
      ∧ casFiles fs' = casFiles fs := by
  constructor
  · funext other
    have distinct : (.ac other : Path Call Src) ≠ .temp call := nofun
    refine (FileSystem.find_rename renamed found distinct).trans ?_
    simp only [Path.ac.injEq, Function.update_apply, acFiles]
  · funext other
    have distinct : (.cas other : Path Call Src) ≠ .temp call := nofun
    exact (FileSystem.find_rename renamed found distinct).trans (if_neg nofun)

omit [DecidableEq Call] [DecidableEq Src] in
theorem chtimes_directories (fs : Fs Call Src) (file : Option Nat)
    : casFiles (chtimes fs file) = casFiles fs ∧ acFiles (chtimes fs file) = acFiles fs := by
  obtain ⟨names, contents, -⟩ := chtimes_spec fs file
  exact directories_congr (fun path _ _ => FileSystem.find_congr (congrFun names path)
    (fun inode _ => congrFun contents inode))

omit [DecidableEq Call] [DecidableEq Src] in
theorem get_directories {see : Path Call Src → Option Nat} {pc pc' : Get}
    (moved : pc.disk force see fs digest outcome = some (fs', pc'))
    : casFiles fs' = casFiles fs ∧ acFiles fs' = acFiles fs := by
  unfold Get.disk at moved
  split at moved
  · obtain ⟨_, _, same⟩ := Option.map_eq_some_iff.mp moved
    cases same
    exact ⟨rfl, rfl⟩
  · cases moved
    exact ⟨rfl, rfl⟩
  · cases moved
    exact chtimes_directories fs _
  · cases moved
    exact ⟨rfl, rfl⟩
  · cases moved

theorem reader_directories {see : Path Call Src → Option Nat} {pc pc' : Pc}
    (request : world.request call = .get digest ∨ world.request call = .getActionResult digest)
    (taken : diskStep world see fs call pc outcome = some (fs', pc'))
    : casFiles fs' = casFiles fs ∧ acFiles fs' = acFiles fs := by
  rcases request with request | request <;> cases pc <;>
    simp only [diskStep, request, reduceCtorEq] at taken
  · obtain ⟨_, moved, same⟩ := Option.bind_eq_some_iff.mp taken
    cases same
    exact get_directories moved
  · obtain ⟨_, _, same⟩ := Option.bind_eq_some_iff.mp taken
    cases same
    exact ⟨rfl, rfl⟩

theorem Sound.put_refines (sound : Sound world none links fs pcs) {pc pc' : Put}
    (request : world.request call = .put digest data) (stands : pcs call = .put rest fd pc)
    (made : putCall (seen links fs) fs call digest fd pc outcome = some (fs', fd'))
    (next : pc.disk digest (casFiles fs) outcome = some (files, pc'))
    : casFiles fs' = files ∧ acFiles fs' = acFiles fs := by
  have standing := (standing_put request).mp (stands ▸ sound.standing call nofun)
  cases outcome with
  | fail err =>
      cases made
      cases pc <;> cases next <;> exact ⟨rfl, rfl⟩
  | ok =>
      cases pc with
      | mkdirAll | close =>
          cases made
          cases next
          exact ⟨rfl, rfl⟩
      | createTemp =>
          cases next
          obtain ⟨_, created, same⟩ := Option.map_eq_some_iff.mp made
          cases same
          exact directories_congr (fun _ lasting _ => FileSystem.find_create created (lasting call))
      | copy | returned => cases next
      | rename written =>
          cases next
          obtain ⟨_, renamed, same⟩ := Option.map_eq_some_iff.mp made
          cases same
          exact directories_renameCas renamed standing.1
      | chmod =>
          cases next
          obtain ⟨_, same⟩ := Option.ite_none_right_eq_some.mp made
          cases same
          exact ⟨rfl, rfl⟩
      | deferred =>
          cases made
          cases next
          exact directories_congr (fun _ lasting _ => FileSystem.find_discard (lasting call))

theorem Sound.putFile_refines (sound : Sound world none links fs pcs) {src : Src} {input input' : Nat}
    {pc pc' : PutFile} (request : world.request call = .putFile digest src)
    (stands : pcs call = .putFile input fd pc) (plain : ∀ inode, links inode = none)
    (made : putFileCall force (seen links fs) fs call digest src input fd pc outcome
      = some (fs', input', fd'))
    (next : pc.disk digest (putFileInput (seen links fs) fs src input pc) (casFiles fs) outcome
      = some (files, pc'))
    : casFiles fs' = files ∧ acFiles fs' = acFiles fs := by
  have standing := (standing_putFile request).mp (stands ▸ sound.standing call nofun)
  cases outcome with
  | fail err =>
      cases made
      cases pc <;> cases next <;> exact ⟨rfl, rfl⟩
  | ok =>
      cases pc with
      | stat =>
          cases made
          obtain rfl : files = casFiles fs := by
            simp only [PutFile.disk] at next
            split at next <;> cases next <;> rfl
          split
          · exact chtimes_directories fs _
          · exact ⟨rfl, rfl⟩
      | mkdirAll | close =>
          cases made
          cases next
          exact ⟨rfl, rfl⟩
      | link =>
          cases next
          obtain ⟨_, linked, same⟩ := Option.map_eq_some_iff.mp made
          cases same
          exact directories_congr (fun _ lasting _ => FileSystem.find_link linked (lasting call))
      | «open» =>
          cases next
          obtain ⟨_, _, same⟩ := Option.map_eq_some_iff.mp made
          cases same
          exact ⟨rfl, rfl⟩
      | create =>
          cases next
          rw [putFileCall, FileSystem.createOrTruncate_of_free standing.1] at made
          obtain ⟨_, created, same⟩ := Option.map_eq_some_iff.mp made
          cases same
          exact directories_congr (fun _ lasting _ => FileSystem.find_create created (lasting call))
      | copy =>
          cases made
          obtain ⟨_, same⟩ := Option.ite_none_right_eq_some.mp next
          cases same
          exact ⟨rfl, rfl⟩
      | chmod =>
          cases next
          obtain ⟨_, same⟩ := Option.ite_none_right_eq_some.mp made
          cases same
          exact ⟨rfl, rfl⟩
      | rename written =>
          cases next
          obtain ⟨_, renamed, same⟩ := Option.map_eq_some_iff.mp made
          cases same
          obtain ⟨inode, named, whole, -⟩ := standing
          exact directories_renameCas renamed
            ((FileSystem.find_of_names named).trans (congrArg some (whole (plain inode)).1))
      | deferred =>
          cases made
          cases next
          split
          · exact directories_congr (fun _ lasting _ => FileSystem.find_discard (lasting call))
          · exact ⟨rfl, rfl⟩
      | returned => cases next

theorem Sound.update_refines (sound : Sound world none links fs pcs) {result : ActionResult}
    {pc pc' : UpdateActionResult} (request : world.request call = .updateActionResult digest result)
    (stands : pcs call = .update fd pc)
    (made : updateCall fs call digest fd pc outcome = some (fs', fd'))
    (next : pc.disk digest (world.marshal result) (acFiles fs) outcome = some (files, pc'))
    : acFiles fs' = files ∧ casFiles fs' = casFiles fs := by
  have standing := (standing_update request).mp (stands ▸ sound.standing call nofun)
  cases outcome with
  | fail err =>
      cases made
      cases pc <;> cases next <;> exact ⟨rfl, rfl⟩
  | ok =>
      cases pc with
      | marshal | mkdirAll | close =>
          cases made
          cases next
          exact ⟨rfl, rfl⟩
      | createTemp =>
          cases next
          obtain ⟨_, created, same⟩ := Option.map_eq_some_iff.mp made
          cases same
          exact (directories_congr
            (fun _ lasting _ => FileSystem.find_create created (lasting call))).symm
      | write =>
          cases made
          obtain ⟨_, same⟩ := Option.ite_none_right_eq_some.mp next
          cases same
          exact ⟨rfl, rfl⟩
      | rename written =>
          cases next
          obtain ⟨_, renamed, same⟩ := Option.map_eq_some_iff.mp made
          cases same
          exact directories_renameAc renamed standing.1
      | deferred =>
          cases made
          cases next
          exact (directories_congr
            (fun _ lasting _ => FileSystem.find_discard (lasting call))).symm
      | returned => cases next

section

omit [DecidableEq Call] [DecidableEq Src]

theorem Sound.append_directories (sound : Sound world none links fs pcs)
    (writes : (pcs call).writes = some fd) (bytes : Bytes)
    : casFiles (fs.append fd bytes) = casFiles fs ∧ acFiles (fs.append fd bytes) = acFiles fs :=
  directories_congr (fun path lasting _ => FileSystem.find_append (fun found =>
    lasting call (sound.alone call fd writes path found)))

theorem Sound.read_directories (sound : Sound world none links fs pcs) {pc' : Pc}
    {read : Proxy.Read} (taken : readStep world fs call (pcs call) read = some (fs', pc'))
    : casFiles fs' = casFiles fs ∧ acFiles fs' = acFiles fs := by
  unfold readStep at taken
  split at taken
  · next pc request stands =>
    obtain ⟨left, after, rest⟩ := Option.bind_eq_some_iff.mp taken
    split at rest
    · obtain ⟨next, moved, same⟩ := Option.bind_eq_some_iff.mp rest
      cases same
      cases pc <;> cases moved
      exact sound.append_directories (by rw [stands]; rfl) _
    · obtain ⟨next, moved, same⟩ := Option.bind_eq_some_iff.mp rest
      cases same
      exact ⟨rfl, rfl⟩
  · cases taken

theorem Sound.chunk_directories (sound : Sound world none links fs pcs) {pc' : Pc} {count : Nat}
    (taken : chunkStep fs (pcs call) count = some (fs', pc'))
    : casFiles fs' = casFiles fs ∧ acFiles fs' = acFiles fs := by
  unfold chunkStep at taken
  split at taken
  · next stands =>
    cases taken
    exact sound.append_directories (by rw [stands]; rfl) _
  · next stands =>
    cases taken
    exact sound.append_directories (by rw [stands]; rfl) _
  · cases taken
    exact ⟨rfl, rfl⟩
  · cases taken

/-- Without symbolic links every step in which deferred removals do not fail is a clean one. -/
theorem cleansUp_of_plain {s : State Call Src} {label : Label Call Src}
    (sound : Sound world none s.links s.fs s.pcs) (plain : ∀ src, world.links src = none)
    (allowed : removalsSucceed s label)
    : cleansUp world s label := by
  have none_ := sound.no_symlinks plain
  cases label with
  | disk call outcome =>
      cases outcome with
      | fail err => exact allowed
      | ok =>
          simp only [cleansUp, linksLead]
          split
          · next pc _ _ =>
            rw [none_]
            cases pc with
            | link => exact nofun
            | deferred =>
                rw [putFileLeads, seen_plain]
                exact id
            | _ => trivial
          · trivial
  | _ => trivial

end

theorem plain_sound_inductive (plain : ∀ src, world.links src = none)
    : (machine world).Inductive removalsSucceed
        (fun s => Sound world none s.links s.fs s.pcs) where
  start := (sound_inductive world).start
  keeps _ _ _ sound allowed taken :=
    sound_keeps sound (cleansUp_of_plain sound plain allowed) taken

theorem Sound.idle_directories {s s' : State Call Src} {label : Label Call Src}
    (sound : Sound world none s.links s.fs s.pcs) (taken : step world s label = some s')
    (idle : ∀ call outcome, label ≠ .disk call outcome)
    : casFiles s'.fs = casFiles s.fs ∧ acFiles s'.fs = acFiles s.fs := by
  cases label with
  | disk call outcome => exact absurd rfl (idle call outcome)
  | read call read =>
      obtain ⟨next, moved, rfl⟩ := Option.map_eq_some_iff.mp taken
      exact sound.read_directories moved
  | chunk call count =>
      obtain ⟨next, moved, rfl⟩ := Option.map_eq_some_iff.mp taken
      exact sound.chunk_directories moved
  | appear src =>
      obtain ⟨fs₁, created, rfl⟩ := Option.map_eq_some_iff.mp taken
      refine directories_congr (fun path _ inside => ?_)
      refine Eq.trans (FileSystem.find_append (fun found => ?_))
        (FileSystem.find_create created (inside src))
      rw [(FileSystem.create_spec created).2.1, Function.update_of_ne (inside src)] at found
      exact Nat.lt_irrefl _ (s.fs.allocated path _ found)
  | stage hash src =>
      obtain ⟨-, linked⟩ := Option.ite_none_right_eq_some.mp taken
      obtain ⟨fs₁, made, rfl⟩ := Option.map_eq_some_iff.mp linked
      exact directories_congr (fun _ _ inside => FileSystem.find_link made (inside src))
  | vanish src =>
      obtain ⟨fs₁, removed, rfl⟩ := Option.map_eq_some_iff.mp taken
      exact directories_congr (fun _ _ inside => FileSystem.find_remove removed (inside src))
  | tick duration =>
      cases taken
      exact ⟨rfl, rfl⟩

/-- The inodes refine the store that `LocalStore` is modelled as. Over sources that are regular
files, in every run: a filesystem call of a writer does to the files at the CAS and AC paths what
the model of its method does, and every read, every part of a copy, every call of a reader and
everything done to the sources leaves them as they are.
-/
theorem writers_refine_store {s s' : State Call Src} {label : Label Call Src}
    (plain : ∀ src, world.links src = none)
    (reach : (machine world).Reachable removalsSucceed s)
    (taken : step world s label = some s')
    : (∀ call outcome digest data rest fd pc, label = .disk call outcome →
        world.request call = .put digest data → s.pcs call = .put rest fd pc →
        (pc.disk digest (casFiles s.fs) outcome).map Prod.fst = some (casFiles s'.fs)
        ∧ acFiles s'.fs = acFiles s.fs)
      ∧ (∀ call outcome digest src input fd pc, label = .disk call outcome →
          world.request call = .putFile digest src → s.pcs call = .putFile input fd pc →
          (pc.disk digest (putFileInput s.see s.fs src input pc) (casFiles s.fs) outcome).map
            Prod.fst = some (casFiles s'.fs)
          ∧ acFiles s'.fs = acFiles s.fs)
      ∧ (∀ call outcome digest result fd pc, label = .disk call outcome →
          world.request call = .updateActionResult digest result → s.pcs call = .update fd pc →
          (pc.disk digest (world.marshal result) (acFiles s.fs) outcome).map Prod.fst
            = some (acFiles s'.fs)
          ∧ casFiles s'.fs = casFiles s.fs)
      ∧ ((∀ call outcome, label = .disk call outcome →
            ∃ digest, world.request call = .get digest
              ∨ world.request call = .getActionResult digest) →
          casFiles s'.fs = casFiles s.fs ∧ acFiles s'.fs = acFiles s.fs) := by
  have sound := (plain_sound_inductive plain).reachable reach
  have none_ := sound.no_symlinks plain
  have same : seenFiles s.see s.fs = casFiles s.fs := by
    unfold State.see
    rw [none_, seen_plain]
    rfl
  refine ⟨?_, ?_, ?_, ?_⟩
  · rintro call outcome digest data rest fd pc rfl request stands
    obtain ⟨⟨fs', pc'⟩, moved, rfl⟩ := Option.map_eq_some_iff.mp taken
    simp only [diskStep, request, stands] at moved
    obtain ⟨_, made, later⟩ := Option.bind_eq_some_iff.mp moved
    obtain ⟨_, next, ends⟩ := Option.bind_eq_some_iff.mp later
    cases ends
    obtain ⟨cas, ac⟩ := sound.put_refines request stands made next
    exact ⟨by rw [next]; exact congrArg some cas.symm, ac⟩
  · rintro call outcome digest src input fd pc rfl request stands
    obtain ⟨⟨fs', pc'⟩, moved, rfl⟩ := Option.map_eq_some_iff.mp taken
    simp only [diskStep, request, stands, same] at moved
    obtain ⟨_, made, later⟩ := Option.bind_eq_some_iff.mp moved
    obtain ⟨_, next, ends⟩ := Option.bind_eq_some_iff.mp later
    cases ends
    obtain ⟨cas, ac⟩ := sound.putFile_refines request stands (congrFun none_) made next
    exact ⟨by rw [next]; exact congrArg some cas.symm, ac⟩
  · rintro call outcome digest result fd pc rfl request stands
    obtain ⟨⟨fs', pc'⟩, moved, rfl⟩ := Option.map_eq_some_iff.mp taken
    simp only [diskStep, request, stands] at moved
    obtain ⟨_, made, later⟩ := Option.bind_eq_some_iff.mp moved
    obtain ⟨_, next, ends⟩ := Option.bind_eq_some_iff.mp later
    cases ends
    obtain ⟨ac, cas⟩ := sound.update_refines request stands made next
    exact ⟨by rw [next]; exact congrArg some ac.symm, cas⟩
  · intro reader
    by_cases idle : ∀ call outcome, label ≠ .disk call outcome
    · exact sound.idle_directories taken idle
    · push Not at idle
      obtain ⟨call, outcome, rfl⟩ := idle
      obtain ⟨next, moved, rfl⟩ := Option.map_eq_some_iff.mp taken
      obtain ⟨digest, request⟩ := reader call outcome rfl
      exact reader_directories request moved

end Steps

instance {Call Src : Type} (s : State Call Src) (label : Label Call Src)
    : Decidable (removalsSucceed s label) := by
  unfold removalsSucceed
  split <;> infer_instance

instance {Call Src : Type} (links : Symlinks Call Src) (fs : Fs Call Src) (call : Call) (src : Src)
    [DecidableEq Call] [DecidableEq Src] (pc : PutFile)
    : Decidable (putFileLeads links fs call src pc) := by
  unfold putFileLeads
  split <;> infer_instance

instance {Call Src : Type} [DecidableEq Call] [DecidableEq Src] (world : World Call Src)
    (s : State Call Src) (label : Label Call Src)
    : Decidable (cleansUp world s label) := by
  unfold cleansUp linksLead
  split
  · infer_instance
  · split <;> infer_instance
  · infer_instance

/-- Two writers of one blob: a `Put` of two bytes and a `PutFile` of a source with the same
contents.
-/
def twoWriters : World Bool Unit where
  request isPut :=
    if isPut then .put ⟨"00ff", 2⟩ [1, 2] else .putFile ⟨"00ff", 2⟩ ()
  source _ := [1, 2]
  links _ := none
  ends := no_links_end
  marshal _ := []
  unmarshal _ := .error (.plain "EOF")
  forceUpdateATime := false

/-- A `PutFile` that fails to link and copies one byte at a time, and a `Put` that is renamed
over it before the copy ends.
-/
def overlappingWriters : List (Label Bool Unit) :=
  [.appear (), .disk false .ok, .disk false .ok, .disk false (.fail (.plain "EXDEV")),
    .disk false .ok, .disk false .ok, .chunk false 1,
    .disk true .ok, .disk true .ok, .read true (.data [1]), .read true (.data [2]),
    .read true (.error .eof), .disk true .ok, .disk true .ok]

/-- While one writer is half through its copy, the path of the blob holds the other one's
complete data.
-/
theorem overlapping_writers_leave_whole_blob
    : ∃ s, (machine twoWriters).Reachable (cleansUp twoWriters) s
        ∧ s.fs.find (.temp false) = some [1] ∧ s.see (.cas "00ff") = some 2
        ∧ s.fs.contents 2 = [1, 2]
        ∧ twoWriters.Blob "00ff" (s.fs.contents 2) := by
  obtain ⟨s, run, tested⟩ := Machine.exists_run_of_execIf (machine twoWriters)
    (cleansUp twoWriters) ⟨.empty, fun _ => none, fun call => (twoWriters.request call).start⟩
    overlappingWriters
    (fun s => decide (s.fs.find (.temp false) = some [1]
      ∧ s.see (.cas "00ff") = some 2 ∧ s.fs.contents 2 = [1, 2])) (by decide)
  obtain ⟨half, found, whole⟩ := of_decide_eq_true tested
  have reach : (machine twoWriters).Reachable (cleansUp twoWriters) s := ⟨_, _, rfl, run⟩
  exact ⟨s, reach, half, found, whole, (readers_see_whole_files twoWriters s reach).1 _ _ found⟩

/-- A `PutFile` of an output that is a symbolic link with a relative target. -/
def linkedOutput : World Unit Bool where
  request _ := .putFile ⟨"00ff", 2⟩ true
  source _ := [1, 2]
  links isLink := if isLink then some ⟨"out.txt".toUTF8.toList, false, none⟩ else none
  ends isLink link found := by
    cases isLink <;> cases found
    rfl
  marshal _ := []
  unmarshal _ := .error (.plain "EOF")
  forceUpdateATime := false

/-- The link gets the temporary name, and leads nowhere from there: `Chmod` fails, the deferred
`Stat` does not find the file, and the call returns with its temporary file in place.
-/
theorem symlinked_output_leaves_temp
    : ∃ s, (machine linkedOutput).Reachable removalsSucceed s
        ∧ (s.pcs ()).hasReturned = true
        ∧ (s.fs.names (.temp ())).isSome = true := by
  obtain ⟨s, run, tested⟩ := Machine.exists_run_of_execIf (machine linkedOutput) removalsSucceed
    ⟨.empty, fun _ => none, fun call => (linkedOutput.request call).start⟩
    [.appear false, .appear true, .disk () .ok, .disk () .ok, .disk () .ok,
      .disk () (.fail (.plain "no such file or directory")), .disk () .ok]
    (fun s => (s.pcs ()).hasReturned && (s.fs.names (.temp ())).isSome) (by decide)
  obtain ⟨returned, there⟩ := Bool.and_eq_true_iff.mp tested
  exact ⟨s, ⟨_, _, rfl, run⟩, returned, there⟩

/-- The state before the rename. -/
def beforeRename : State Bool Unit :=
  ((machine twoWriters).execIf removalsSucceed
    ⟨.empty, fun _ => none, fun call => (twoWriters.request call).start⟩
    overlappingWriters.dropLast).get (by decide)

theorem rename_refines_store
    : ∃ s, step twoWriters beforeRename (.disk true .ok) = some s
        ∧ (Put.disk ⟨"00ff", 2⟩ (casFiles beforeRename.fs) (.rename [1, 2]) .ok).map Prod.fst
            = some (casFiles s.fs) := by
  have reach : (machine twoWriters).Reachable removalsSucceed beforeRename :=
    ⟨_, _, rfl, Machine.execIf_run (Option.some_get _).symm⟩
  have can : (step twoWriters beforeRename (.disk true .ok)).isSome = true := by decide
  obtain ⟨s, taken⟩ := Option.isSome_iff_exists.mp can
  have plain : ∀ src, twoWriters.links src = none := fun _ => rfl
  exact ⟨s, taken, ((writers_refine_store plain reach taken).1 true .ok _ _ [] 2 _ rfl rfl rfl).1⟩

end GoREgo.Disk
