import GoREgo.Storage.Disk

/-! What holds of the files of a local store at every moment: every lasting path leads to
complete data, a file that is being written is known to its writer alone, and each call
stands where its next filesystem call says. A step of a call is followed through the changes
it makes: the call is released, the files change, and the call settles again.
-/

namespace GoREgo.Disk

open Lib LocalStore

variable {Call Src : Type}

/-- Complete data for a CAS path: what one `Put` was given, as long as its digest says, or
the contents of the source of one `PutFile`.
-/
def World.Blob (world : World Call Src) (hash : String) (data : Bytes) : Prop :=
  (∃ call digest, world.request call = .put digest data ∧ digest.hash = hash
    ∧ (data.length : Int) = digest.sizeBytes)
  ∨ ∃ call digest src, world.request call = .putFile digest src ∧ digest.hash = hash
    ∧ data = world.data src

/-- Complete data for an AC path: one marshalled result that was put there. -/
def World.Entry (world : World Call Src) (hash : String) (data : Bytes) : Prop :=
  ∃ call digest result, world.request call = .updateActionResult digest result
    ∧ digest.hash = hash ∧ data = world.marshal result

/-- What is read through a path. -/
def World.Shows (world : World Call Src) : Path Call Src → Bytes → Prop
  | .cas hash, data => world.Blob hash data
  | .ac hash, data => world.Entry hash data
  | .temp _, _ => True
  | .source src, data => data = world.data src

/-- The symbolic links that a path may be: a source as the world has it; the temporary file of a
`PutFile` of one; or a blob, if the link leads from there where it led before.
-/
def World.Leads (world : World Call Src) : Path Call Src → Symlink Call Src → Prop
  | .cas hash, link =>
      link.inStore = some (.source link.file)
      ∧ ∃ call digest src, world.request call = .putFile digest src ∧ digest.hash = hash
          ∧ world.links src = some link
  | .ac _, _ => False
  | .temp call, link =>
      (∃ digest src, world.request call = .putFile digest src ∧ world.links src = some link)
      ∧ (link.inStore = none ∨ link.inStore = some (.source link.file))
  | .source src, link => world.links src = some link

def World.Fits (world : World Call Src) (links : Symlinks Call Src) (path : Path Call Src)
    (inode : Nat) (data : Bytes)
    : Prop :=
  match links inode with
  | none => world.Shows path data ∧ ∀ src, path = .source src → world.links src = none
  | some link => world.Leads path link

theorem World.fits_source {world : World Call Src} {links : Symlinks Call Src} {inode : Nat}
    {src : Src} (kind : links inode = world.links src)
    : world.Fits links (.source src) inode (world.raw src) := by
  rw [Fits, kind]
  cases linked : world.links src with
  | none =>
      refine ⟨by simp [Shows, raw, data, linked], ?_⟩
      rintro other ⟨⟩
      exact linked
  | some link => exact linked

theorem World.fits_temp {world : World Call Src} {links : Symlinks Call Src} {call : Call}
    {inode : Nat} {data data' : Bytes} (fits : world.Fits links (.temp call) inode data)
    : world.Fits links (.temp call) inode data' := by
  unfold Fits at fits ⊢
  split at fits
  · exact ⟨trivial, nofun⟩
  · exact fits

theorem World.Shows.fits {world : World Call Src} {links : Symlinks Call Src}
    {path : Path Call Src} {inode : Nat} {data : Bytes} (whole : world.Shows path data)
    (regular : links inode = none) (inside : ∀ src, path ≠ .source src)
    : world.Fits links path inode data := by
  unfold Fits
  rw [regular]
  exact ⟨whole, fun src same => absurd same (inside src)⟩

def Pc.writes : Pc → Option Nat
  | .put _ fd (.copy _) => some fd
  | .putFile _ fd (.copy _) => some fd
  | .update fd (.write _ _) => some fd
  | _ => none

def Pc.reads : Pc → Option Nat
  | .putFile input _ .create => some input
  | .putFile input _ (.copy _) => some input
  | .get (.chtimes inode) => some inode
  | .get (.returned (.ok inode)) => some inode
  | .getActionResult (.read inode _) => some inode
  | _ => none

def PutStanding (fs : Fs Call Src) (call : Call) (digest : Digest) (data rest : Bytes)
    (fd : Nat)
    : Put → Prop
  | .mkdirAll | .createTemp => fs.names (.temp call) = none ∧ rest = data
  | .copy written =>
      fs.names (.temp call) = some fd ∧ fs.contents fd = written ∧ written ++ rest = data
  | .close written | .rename written =>
      fs.find (.temp call) = some written ∧ written = data
        ∧ (data.length : Int) = digest.sizeBytes
  | .chmod | .deferred _ _ => True
  | .returned _ _ => fs.names (.temp call) = none

def PutFileStanding (links : Symlinks Call Src) (fs : Fs Call Src) (call : Call) (source : Bytes)
    (input fd : Nat)
    : PutFile → Prop
  | .stat | .mkdirAll | .link | .open => fs.names (.temp call) = none
  | .create => fs.names (.temp call) = none ∧ fs.contents input = source
  | .copy written =>
      fs.names (.temp call) = some fd ∧ fs.contents fd = written
        ∧ fs.contents input = source ∧ written <+: source
  | .close written => fs.find (.temp call) = some written ∧ written = source
  | .chmod _ written =>
      ∃ inode, fs.names (.temp call) = some inode
        ∧ (links inode = none → fs.contents inode = written ∧ written = source)
  | .rename written =>
      ∃ inode, fs.names (.temp call) = some inode
        ∧ (links inode = none → fs.contents inode = written ∧ written = source)
        ∧ ∀ link, links inode = some link → link.inStore ≠ none
  | .deferred _ _ => True
  | .returned _ _ => fs.names (.temp call) = none

def UpdateStanding (fs : Fs Call Src) (call : Call) (marshalled : Bytes) (fd : Nat)
    : UpdateActionResult → Prop
  | .marshal => fs.names (.temp call) = none
  | .mkdirAll data | .createTemp data => fs.names (.temp call) = none ∧ data = marshalled
  | .write data written =>
      fs.names (.temp call) = some fd ∧ fs.contents fd = written ∧ data = marshalled
        ∧ written <+: data
  | .close written | .rename written =>
      fs.find (.temp call) = some written ∧ written = marshalled
  | .deferred _ _ => True
  | .returned _ _ => fs.names (.temp call) = none

def GetStanding (world : World Call Src) (fs : Fs Call Src) (hash : String) : Get → Prop
  | .open | .returned (.error _) => True
  | .chtimes inode | .returned (.ok inode) => world.Blob hash (fs.contents inode)

def GetActionStanding (world : World Call Src) (fs : Fs Call Src) (hash : String)
    : GetActionResult → Prop
  | .open | .returned none _ => True
  | .read inode got => world.Entry hash (fs.contents inode) ∧ got <+: fs.contents inode
  | .returned (some got) result => world.Entry hash got ∧ result = world.unmarshal got

def Standing (world : World Call Src) (links : Symlinks Call Src) (fs : Fs Call Src) (call : Call)
    (pc : Pc)
    : Prop :=
  match world.request call, pc with
  | .put digest data, .put rest fd pc => PutStanding fs call digest data rest fd pc
  | .putFile _ src, .putFile input fd pc =>
      PutFileStanding links fs call (world.data src) input fd pc
  | .updateActionResult _ result, .update fd pc =>
      UpdateStanding fs call (world.marshal result) fd pc
  | .get digest, .get pc =>
      fs.names (.temp call) = none ∧ GetStanding world fs digest.hash pc
  | .getActionResult digest, .getActionResult pc =>
      fs.names (.temp call) = none ∧ GetActionStanding world fs digest.hash pc
  | _, _ => False

section Frame

variable {world : World Call Src} {links links' : Symlinks Call Src} {fs fs' : Fs Call Src}
  {call : Call}

theorem GetStanding.frame {hash : String} {pc : Get} (standing : GetStanding world fs hash pc)
    (read : ∀ inode, (Pc.get pc).reads = some inode → fs'.contents inode = fs.contents inode)
    : GetStanding world fs' hash pc := by
  match pc with
  | .open | .returned (.error _) => trivial
  | .chtimes inode | .returned (.ok inode) =>
      show world.Blob hash (fs'.contents inode)
      rw [read inode rfl]
      exact standing

theorem GetActionStanding.frame {hash : String} {pc : GetActionResult}
    (standing : GetActionStanding world fs hash pc)
    (read : ∀ inode, (Pc.getActionResult pc).reads = some inode →
      fs'.contents inode = fs.contents inode)
    : GetActionStanding world fs' hash pc := by
  match pc with
  | .open | .returned none _ => trivial
  | .returned (some got) _ => exact standing
  | .read inode got =>
      show world.Entry hash (fs'.contents inode) ∧ got <+: fs'.contents inode
      rw [read inode rfl]
      exact standing

variable (temp : fs'.names (.temp call) = fs.names (.temp call))
  (kept : ∀ inode, fs.names (.temp call) = some inode → fs'.contents inode = fs.contents inode)

include temp kept

theorem PutStanding.frame {digest : Digest} {data rest : Bytes} {fd : Nat} {pc : Put}
    (standing : PutStanding fs call digest data rest fd pc)
    : PutStanding fs' call digest data rest fd pc := by
  have found : fs'.find (.temp call) = fs.find (.temp call) := FileSystem.find_congr temp kept
  cases pc with
  | copy written =>
      obtain ⟨named, contents, whole⟩ := standing
      exact ⟨temp ▸ named, (kept _ named).trans contents, whole⟩
  | close written | rename written => exact ⟨found ▸ standing.1, standing.2⟩
  | mkdirAll | createTemp => exact ⟨temp ▸ standing.1, standing.2⟩
  | chmod | deferred => trivial
  | returned => exact temp.trans standing

theorem PutFileStanding.frame {source : Bytes} {input fd : Nat} {pc : PutFile}
    (standing : PutFileStanding links fs call source input fd pc)
    (read : ∀ inode, (Pc.putFile input fd pc).reads = some inode →
      fs'.contents inode = fs.contents inode)
    (same : ∀ inode, fs.names (.temp call) = some inode → links' inode = links inode)
    : PutFileStanding links' fs' call source input fd pc := by
  have found : fs'.find (.temp call) = fs.find (.temp call) := FileSystem.find_congr temp kept
  cases pc with
  | create => exact ⟨temp ▸ standing.1, (read _ rfl).trans standing.2⟩
  | copy written =>
      obtain ⟨named, contents, source, part⟩ := standing
      exact ⟨temp ▸ named, (kept _ named).trans contents, (read _ rfl).trans source, part⟩
  | close written => exact ⟨found ▸ standing.1, standing.2⟩
  | chmod linked written =>
      obtain ⟨inode, named, whole⟩ := standing
      refine ⟨inode, temp ▸ named, ?_⟩
      rw [same inode named, kept inode named]
      exact whole
  | rename written =>
      obtain ⟨inode, named, whole, leads⟩ := standing
      refine ⟨inode, temp ▸ named, ?_, ?_⟩
      · rw [same inode named, kept inode named]
        exact whole
      · rw [same inode named]
        exact leads
  | deferred => trivial
  | stat | mkdirAll | link | «open» | returned => exact temp.trans standing

theorem UpdateStanding.frame {marshalled : Bytes} {fd : Nat} {pc : UpdateActionResult}
    (standing : UpdateStanding fs call marshalled fd pc)
    : UpdateStanding fs' call marshalled fd pc := by
  have found : fs'.find (.temp call) = fs.find (.temp call) := FileSystem.find_congr temp kept
  cases pc with
  | write data written =>
      obtain ⟨named, contents, whole⟩ := standing
      exact ⟨temp ▸ named, (kept _ named).trans contents, whole⟩
  | close written | rename written => exact ⟨found ▸ standing.1, standing.2⟩
  | mkdirAll data | createTemp data => exact ⟨temp ▸ standing.1, standing.2⟩
  | deferred => trivial
  | marshal | returned => exact temp.trans standing

theorem Standing.frame {pc : Pc} (standing : Standing world links fs call pc)
    (read : ∀ inode, pc.reads = some inode → fs'.contents inode = fs.contents inode)
    (same : ∀ inode, fs.names (.temp call) = some inode → links' inode = links inode)
    : Standing world links' fs' call pc := by
  unfold Standing at standing ⊢
  split at standing
  · exact standing.frame temp kept
  · exact standing.frame temp kept read same
  · exact standing.frame temp kept
  · exact ⟨temp ▸ standing.1, standing.2.frame read⟩
  · exact ⟨temp ▸ standing.1, standing.2.frame read⟩
  · exact standing

end Frame

section Requests

variable {world : World Call Src} {links : Symlinks Call Src} {fs : Fs Call Src} {call : Call}

variable {digest : Digest} {fd : Nat}

theorem standing_put {data rest : Bytes} {pc : Put}
    (request : world.request call = .put digest data)
    : Standing world links fs call (.put rest fd pc) ↔ PutStanding fs call digest data rest fd pc := by
  unfold Standing
  rw [request]

theorem standing_putFile {src : Src} {input : Nat} {pc : PutFile}
    (request : world.request call = .putFile digest src)
    : Standing world links fs call (.putFile input fd pc)
      ↔ PutFileStanding links fs call (world.data src) input fd pc := by
  unfold Standing
  rw [request]

theorem standing_update {result : ActionResult} {pc : UpdateActionResult}
    (request : world.request call = .updateActionResult digest result)
    : Standing world links fs call (.update fd pc)
      ↔ UpdateStanding fs call (world.marshal result) fd pc := by
  unfold Standing
  rw [request]

theorem standing_get {pc : Get} (request : world.request call = .get digest)
    : Standing world links fs call (.get pc)
      ↔ fs.names (.temp call) = none ∧ GetStanding world fs digest.hash pc := by
  unfold Standing
  rw [request]

theorem standing_getActionResult {pc : GetActionResult}
    (request : world.request call = .getActionResult digest)
    : Standing world links fs call (.getActionResult pc)
      ↔ fs.names (.temp call) = none ∧ GetActionStanding world fs digest.hash pc := by
  unfold Standing
  rw [request]

theorem Standing.putFile_request {input : Nat} {pc : PutFile}
    (standing : Standing world links fs call (.putFile input fd pc))
    : ∃ digest src, world.request call = .putFile digest src := by
  unfold Standing at standing
  cases request : world.request call with
  | putFile digest src => exact ⟨digest, src, rfl⟩
  | _ =>
      rw [request] at standing
      exact standing.elim

theorem Standing.update_request {pc : UpdateActionResult}
    (standing : Standing world links fs call (.update fd pc))
    : ∃ digest result, world.request call = .updateActionResult digest result := by
  unfold Standing at standing
  cases request : world.request call with
  | updateActionResult digest result => exact ⟨digest, result, rfl⟩
  | _ =>
      rw [request] at standing
      exact standing.elim

theorem Standing.getActionResult_request {pc : GetActionResult}
    (standing : Standing world links fs call (.getActionResult pc))
    : ∃ digest, world.request call = .getActionResult digest := by
  unfold Standing at standing
  cases request : world.request call with
  | getActionResult digest => exact ⟨digest, rfl⟩
  | _ =>
      rw [request] at standing
      exact standing.elim

theorem Standing.returned {pc : Pc} (standing : Standing world links fs call pc)
    (ended : pc.hasReturned = true)
    : fs.names (.temp call) = none := by
  unfold Standing at standing
  split at standing
  · next pc _ => cases pc <;> cases ended; exact standing
  · next pc _ => cases pc <;> cases ended; exact standing
  · next pc _ => cases pc <;> cases ended; exact standing
  · exact standing.1
  · exact standing.1
  · exact standing.elim

end Requests

/-- Every path leads to complete data; a file that is being written is known to its writer
alone; every call but the one that is moving stands where its next filesystem call says.
-/
structure Sound (world : World Call Src) (moving : Option Call) (links : Symlinks Call Src)
    (fs : Fs Call Src) (pcs : Call → Pc) : Prop where
  named : ∀ path inode, fs.names path = some inode →
    world.Fits links path inode (fs.contents inode)
  known : ∀ inode link, links inode = some link →
    inode < fs.next ∧ ∃ src, world.links src = some link
  alone : ∀ call inode, (pcs call).writes = some inode →
    ∀ path, fs.names path = some inode → path = .temp call
  unread : ∀ call inode, (pcs call).writes = some inode →
    ∀ other, (pcs other).reads ≠ some inode
  opened : ∀ call inode, (pcs call).reads = some inode → inode < fs.next
  held : ∀ call inode, (pcs call).writes = some inode → inode < fs.next
  standing : ∀ call, moving ≠ some call → Standing world links fs call (pcs call)

theorem sound_start (world : World Call Src)
    : Sound world none (fun _ => none) FileSystem.empty
        (fun call => (world.request call).start) where
  named := nofun
  known := nofun
  alone call inode writes := by
    cases request : world.request call <;> rw [request] at writes <;> cases writes
  unread call inode writes := by
    cases request : world.request call <;> rw [request] at writes <;> cases writes
  opened call inode reads := by
    cases request : world.request call <;> rw [request] at reads <;> cases reads
  held call inode writes := by
    cases request : world.request call <;> rw [request] at writes <;> cases writes
  standing call _ := by
    unfold Standing
    cases world.request call with
    | put => exact ⟨rfl, rfl⟩
    | putFile | updateActionResult => exact rfl
    | get | getActionResult => exact ⟨rfl, trivial⟩

namespace Sound

variable {world : World Call Src} {moving : Option Call} {links : Symlinks Call Src}
variable {fs fs' : Fs Call Src}
variable {pcs : Call → Pc} {call : Call}

theorem release (sound : Sound world none links fs pcs) (call : Call)
    : Sound world (some call) links fs pcs :=
  { sound with standing := fun other _ => sound.standing other nofun }

theorem sameFiles (sound : Sound world moving links fs pcs) (names : fs'.names = fs.names)
    (contents : fs'.contents = fs.contents) (next : fs'.next = fs.next)
    : Sound world moving links fs' pcs where
  named path inode found := contents ▸ sound.named path inode (names ▸ found)
  known inode link there := next ▸ sound.known inode link there
  alone call inode writes path found := sound.alone call inode writes path (names ▸ found)
  unread := sound.unread
  opened call inode reads := next ▸ sound.opened call inode reads
  held call inode writes := next ▸ sound.held call inode writes
  standing call still :=
    (sound.standing call still).frame (congrFun names _)
      (fun inode _ => congrFun contents inode) (fun inode _ => congrFun contents inode)
      (fun _ _ => rfl)

theorem times (sound : Sound world moving links fs pcs) (force : Bool) (file : Option Nat)
    : Sound world moving links (if force then chtimes fs file else fs) pcs := by
  obtain ⟨names, contents, next⟩ := chtimes_spec fs file
  split
  · exact sound.sameFiles names contents next
  · exact sound

theorem unlinked (sound : Sound world moving links fs pcs) : links fs.next = none := by
  cases there : links fs.next with
  | none => rfl
  | some link => exact absurd (sound.known _ link there).1 (Nat.lt_irrefl _)

theorem no_symlinks (sound : Sound world moving links fs pcs)
    (plain : ∀ src, world.links src = none)
    : links = fun _ => none := by
  funext inode
  cases linked : links inode with
  | none => rfl
  | some link =>
      obtain ⟨-, src, there⟩ := sound.known inode link linked
      cases (plain src).symm.trans there

/-- What is read through a lasting path, symbolic links followed, is complete, and the file that
it leads to has a lasting path of its own.
-/
theorem seen_shows (sound : Sound world moving links fs pcs) {path : Path Call Src} {inode : Nat}
    (lasting : ∀ call, path ≠ .temp call) (found : seen links fs path = some inode)
    : world.Shows path (fs.contents inode)
      ∧ ∃ path', fs.names path' = some inode ∧ ∀ call, path' ≠ .temp call := by
  obtain ⟨first, named, there⟩ := Option.bind_eq_some_iff.mp found
  have fits := sound.named path first named
  unfold World.Fits at fits
  cases linked : links first with
  | none =>
      simp only [linked] at fits there
      obtain rfl := Option.some.inj there
      exact ⟨fits.1, path, named, lasting⟩
  | some link =>
      simp only [linked] at fits there
      obtain ⟨src, from_, leads, reads⟩ : ∃ src, world.links src = some link
          ∧ link.leads path = some (.source link.file)
          ∧ (world.Shows (.source src) (world.source link.file) →
              world.Shows path (world.source link.file)) := by
        cases path with
        | cas hash =>
            obtain ⟨inStore, call, digest, src, request, same, links⟩ := fits
            exact ⟨src, links, inStore, fun reads => .inr ⟨call, digest, src, request, same, reads⟩⟩
        | source src => exact ⟨src, fits, rfl, id⟩
        | ac hash => exact fits.elim
        | temp call => exact absurd rfl (lasting call)
      obtain ⟨next, led, later⟩ := Option.bind_eq_some_iff.mp there
      obtain rfl := Option.some.inj (leads.symm.trans led)
      -- The file that a link leads to is a regular one.
      obtain ⟨last, named', ended⟩ := Option.bind_eq_some_iff.mp later
      have fits' := sound.named _ last named'
      unfold World.Fits at fits'
      cases linked' : links last with
      | some link' =>
          simp only [linked', World.Leads, world.ends src link from_] at fits'
          cases fits'
      | none =>
          simp only [linked'] at fits' ended
          obtain rfl := Option.some.inj ended
          obtain ⟨whole, -⟩ := fits'
          simp only [World.Shows, World.data, world.ends src link from_, Option.elim_none] at whole
          refine ⟨whole ▸ reads ?_, _, named', nofun⟩
          simp only [World.Shows, World.data, from_, Option.elim_some]

/-- The temporary file of a call that is not a `PutFile` is a regular file. -/
theorem temp_regular (sound : Sound world moving links fs pcs) {inode : Nat}
    (request : ∀ digest src, world.request call ≠ .putFile digest src)
    (named : fs.names (.temp call) = some inode)
    : links inode = none := by
  have fits := sound.named _ inode named
  unfold World.Fits at fits
  cases linked : links inode with
  | none => rfl
  | some link =>
      simp only [linked] at fits
      obtain ⟨⟨digest, src, putFile, -⟩, -⟩ := fits
      exact absurd putFile (request digest src)

theorem temp_fits (sound : Sound world moving links fs pcs) {written : Bytes}
    {target : Path Call Src} (request : ∀ digest src, world.request call ≠ .putFile digest src)
    (found : fs.find (.temp call) = some written) (whole : world.Shows target written)
    (inside : ∀ src, target ≠ .source src) (inode : Nat)
    (named : fs.names (.temp call) = some inode)
    : world.Fits links target inode (fs.contents inode) := by
  obtain rfl : fs.contents inode = written :=
    Option.some.inj ((FileSystem.find_of_names named).symm.trans found)
  exact whole.fits (sound.temp_regular request named) inside

/-- The moving call appends to the file it writes. No other path, reader or writer has it.
-/
theorem append (sound : Sound world (some call) links fs pcs) {fd : Nat}
    (writes : (pcs call).writes = some fd) (data : Bytes)
    : Sound world (some call) links (fs.append fd data) pcs := by
  have other : ∀ inode, inode ≠ fd → (fs.append fd data).contents inode = fs.contents inode :=
    fun inode distinct => Function.update_of_ne distinct _ _
  refine ⟨?_, sound.known, sound.alone, sound.unread, sound.opened, sound.held, ?_⟩
  · intro path inode found
    by_cases same : inode = fd
    · subst same
      obtain rfl := sound.alone call inode writes path found
      exact World.fits_temp (sound.named _ inode found)
    · rw [other inode same]
      exact sound.named path inode found
  · intro reader still
    refine (sound.standing reader still).frame (by rfl) ?_ ?_ (fun _ _ => rfl)
    · intro inode found
      refine other inode ?_
      rintro rfl
      have same := sound.alone call inode writes _ found
      exact still (congrArg some (Path.temp.inj same).symm)
    · intro inode reads
      refine other inode ?_
      rintro rfl
      exact sound.unread call inode writes reader reads

variable [DecidableEq Call]

variable {pc : Pc} {path : Path Call Src}

/-- The moving call arrives at its next filesystem call. A file it writes to is known to it
alone, and a file it reads is not written.
-/
theorem settle (sound : Sound world (some call) links fs pcs) (standing : Standing world links fs call pc)
    (writes : ∀ inode, pc.writes = some inode →
      inode < fs.next ∧ (∀ path, fs.names path = some inode → path = .temp call)
      ∧ pc.reads ≠ some inode ∧ ∀ other, (pcs other).reads ≠ some inode)
    (reads : ∀ inode, pc.reads = some inode →
      inode < fs.next ∧ ∀ other, other ≠ call → (pcs other).writes ≠ some inode)
    : Sound world none links fs (Function.update pcs call pc) := by
  refine ⟨sound.named, sound.known, ?_, ?_, ?_, ?_, ?_⟩
  · intro writer inode written
    by_cases same : writer = call
    · subst same
      rw [Function.update_self] at written
      exact (writes inode written).2.1
    · rw [Function.update_of_ne same] at written
      exact sound.alone writer inode written
  · intro writer inode written reader
    by_cases same : writer = call
    · subst same
      rw [Function.update_self] at written
      by_cases self : reader = writer
      · subst self
        rw [Function.update_self]
        exact (writes inode written).2.2.1
      · rw [Function.update_of_ne self]
        exact (writes inode written).2.2.2 reader
    · rw [Function.update_of_ne same] at written
      by_cases self : reader = call
      · subst self
        rw [Function.update_self]
        intro read
        exact (reads inode read).2 writer same written
      · rw [Function.update_of_ne self]
        exact sound.unread writer inode written reader
  · intro reader inode read
    by_cases same : reader = call
    · subst same
      rw [Function.update_self] at read
      exact (reads inode read).1
    · rw [Function.update_of_ne same] at read
      exact sound.opened reader inode read
  · intro writer inode written
    by_cases same : writer = call
    · subst same
      rw [Function.update_self] at written
      exact (writes inode written).1
    · rw [Function.update_of_ne same] at written
      exact sound.held writer inode written
  · intro other _
    by_cases same : other = call
    · subst same
      rw [Function.update_self]
      exact standing
    · rw [Function.update_of_ne same]
      exact sound.standing other (fun moving => same (Option.some.inj moving).symm)

theorem quiet (sound : Sound world (some call) links fs pcs) (standing : Standing world links fs call pc)
    (writes : pc.writes = none) (reads : pc.reads = none)
    : Sound world none links fs (Function.update pcs call pc) :=
  sound.settle standing (fun _ written => nomatch writes.symm.trans written)
    (fun _ read => nomatch reads.symm.trans read)

theorem resume (sound : Sound world (some call) links fs pcs) (standing : Standing world links fs call pc)
    (writes : pc.writes = (pcs call).writes) (reads : pc.reads = (pcs call).reads)
    : Sound world none links fs (Function.update pcs call pc) := by
  refine sound.settle standing ?_ ?_
  · intro inode written
    rw [writes] at written
    rw [reads]
    exact ⟨sound.held call inode written, sound.alone call inode written,
      sound.unread call inode written call, sound.unread call inode written⟩
  · intro inode read
    rw [reads] at read
    exact ⟨sound.opened call inode read,
      fun other _ written => sound.unread other inode written call read⟩

theorem opens (sound : Sound world (some call) links fs pcs) {inode : Nat}
    (standing : Standing world links fs call pc) (writes : pc.writes = none)
    (reads : ∀ other, pc.reads = some other → other = inode) (found : fs.names path = some inode)
    (lasting : ∀ other, path ≠ .temp other)
    : Sound world none links fs (Function.update pcs call pc) := by
  refine sound.settle standing (fun _ written => nomatch writes.symm.trans written) ?_
  intro other read
  obtain rfl := reads other read
  refine ⟨fs.allocated path other found, ?_⟩
  intro writer _ written
  exact lasting writer (sound.alone writer other written path found)

variable [DecidableEq Src]

/-- One path is pointed at complete data that nobody writes to, or at nothing. A temporary
path belongs to the moving call.
-/
theorem point (sound : Sound world moving links fs pcs) {target : Option Nat}
    (names : fs'.names = Function.update fs.names path target)
    (contents : fs'.contents = fs.contents) (next : fs'.next = fs.next)
    (fits : ∀ inode, target = some inode → world.Fits links path inode (fs.contents inode)
      ∧ ∀ call, (pcs call).writes ≠ some inode)
    (own : ∀ call, path = .temp call → moving = some call)
    : Sound world moving links fs' pcs where
  named other inode found := by
    rw [names] at found
    rw [contents]
    by_cases same : other = path
    · subst same
      rw [Function.update_self] at found
      exact (fits inode found).1
    · rw [Function.update_of_ne same] at found
      exact sound.named other inode found
  known inode link there := next ▸ sound.known inode link there
  alone call inode writes other found := by
    rw [names] at found
    by_cases same : other = path
    · subst same
      rw [Function.update_self] at found
      exact absurd writes ((fits inode found).2 call)
    · rw [Function.update_of_ne same] at found
      exact sound.alone call inode writes other found
  unread := sound.unread
  opened call inode reads := next ▸ sound.opened call inode reads
  held call inode writes := next ▸ sound.held call inode writes
  standing call still := by
    have temp : fs'.names (.temp call) = fs.names (.temp call) := by
      rw [names, Function.update_of_ne]
      intro same
      exact still (own call same.symm)
    exact (sound.standing call still).frame temp
      (fun inode _ => congrFun contents inode) (fun inode _ => congrFun contents inode)
      (fun _ _ => rfl)

/-- A new file is made under a free path. Nobody has it open. -/
theorem make (sound : Sound world moving links fs pcs)
    (names : fs'.names = Function.update fs.names path (some fs.next))
    (contents : ∀ inode, inode ≠ fs.next → fs'.contents inode = fs.contents inode)
    (next : fs'.next = fs.next + 1) {links' : Symlinks Call Src}
    (same : ∀ inode, inode ≠ fs.next → links' inode = links inode)
    (origin : ∀ link, links' fs.next = some link → ∃ src, world.links src = some link)
    (fits : world.Fits links' path fs.next (fs'.contents fs.next))
    (own : ∀ call, path = .temp call → moving = some call)
    : Sound world moving links' fs' pcs := by
  have old : ∀ inode, inode < fs.next → fs'.contents inode = fs.contents inode :=
    fun inode below => contents inode (Nat.ne_of_lt below)
  refine ⟨?_, ?_, ?_, sound.unread, ?_, ?_, ?_⟩
  · intro other inode found
    rw [names] at found
    by_cases here : other = path
    · subst here
      rw [Function.update_self] at found
      obtain rfl := Option.some.inj found
      exact fits
    · rw [Function.update_of_ne here] at found
      have below := fs.allocated other inode found
      rw [old inode below, World.Fits, same inode (Nat.ne_of_lt below)]
      exact sound.named other inode found
  · intro inode link there
    rw [next]
    by_cases made : inode = fs.next
    · subst made
      exact ⟨Nat.lt_succ_self _, origin link there⟩
    · obtain ⟨below, known⟩ := sound.known inode link (same inode made ▸ there)
      exact ⟨Nat.lt_succ_of_lt below, known⟩
  · intro call inode writes other found
    rw [names] at found
    by_cases same : other = path
    · subst same
      rw [Function.update_self] at found
      obtain rfl := Option.some.inj found
      exact absurd (sound.held call _ writes) (Nat.lt_irrefl _)
    · rw [Function.update_of_ne same] at found
      exact sound.alone call inode writes other found
  · intro call inode reads
    rw [next]
    exact Nat.lt_succ_of_lt (sound.opened call inode reads)
  · intro call inode writes
    rw [next]
    exact Nat.lt_succ_of_lt (sound.held call inode writes)
  · intro call still
    have temp : fs'.names (.temp call) = fs.names (.temp call) := by
      rw [names, Function.update_of_ne]
      intro same
      exact still (own call same.symm)
    exact (sound.standing call still).frame temp
      (fun inode found => old inode (fs.allocated _ inode found))
      (fun inode reads => old inode (sound.opened call inode reads))
      (fun inode found => same inode (Nat.ne_of_lt (fs.allocated _ inode found)))

/-- The moving call makes its temporary file and goes on to write it. -/
theorem makeTemp (sound : Sound world (some call) links fs pcs)
    (created : fs.create (.temp call) = some fs')
    (standing : fs'.names (.temp call) = some fs.next → fs'.contents fs.next = [] →
      (∀ inode, inode < fs.next → fs'.contents inode = fs.contents inode) →
      Standing world links fs' call pc) (writes : pc.writes = some fs.next)
    (reads : pc.reads = (pcs call).reads)
    : Sound world none links fs' (Function.update pcs call pc) := by
  obtain ⟨-, names, contents, next⟩ := FileSystem.create_spec created
  have made : Sound world (some call) links fs' pcs := by
    refine sound.make names ?_ next (fun _ _ => rfl) ?_ ?_ (fun other same => ?_)
    · intro inode distinct
      rw [contents, Function.update_of_ne distinct]
    · intro link there
      exact (sound.known _ link there).2
    · exact World.Shows.fits trivial sound.unlinked nofun
    · exact congrArg some (Path.temp.inj same)
  refine made.settle (standing ?_ ?_ ?_) ?_ ?_
  · rw [names, Function.update_self]
  · rw [contents, Function.update_self]
  · intro inode below
    rw [contents, Function.update_of_ne (Nat.ne_of_lt below)]
  · intro inode written
    obtain rfl := Option.some.inj (writes.symm.trans written)
    have unread : ∀ other, (pcs other).reads ≠ some fs.next :=
      fun other read => Nat.lt_irrefl _ (sound.opened other _ read)
    refine ⟨next ▸ Nat.lt_succ_self _, ?_, reads ▸ unread call, unread⟩
    intro path found
    by_contra other
    rw [names, Function.update_of_ne other] at found
    exact Nat.lt_irrefl _ (fs.allocated path _ found)
  · intro inode read
    rw [reads] at read
    exact ⟨made.opened call inode read,
      fun other _ written => made.unread other inode written call read⟩

/-- The moving call renames its complete temporary file to a lasting path. -/
theorem publish (sound : Sound world (some call) links fs pcs) {target : Path Call Src}
    (renamed : fs.rename (.temp call) target = some fs')
    (fits : ∀ inode, fs.names (.temp call) = some inode →
      world.Fits links target inode (fs.contents inode))
    (lasting : ∀ other, target ≠ .temp other) (idle : (pcs call).writes = none)
    (standing : Standing world links fs' call pc) (writes : pc.writes = none) (reads : pc.reads = none)
    : Sound world none links fs' (Function.update pcs call pc) := by
  obtain ⟨inode, named, moved⟩ := FileSystem.rename_spec renamed
  rcases moved with ⟨_, rfl⟩ | ⟨names, contents, next⟩
  · exact sound.quiet standing writes reads
  · have unwritten : ∀ other, (pcs other).writes ≠ some inode := by
      intro other written
      obtain rfl := Path.temp.inj (sound.alone other inode written _ named)
      cases idle.symm.trans written
    -- The two halves of the rename: the target gets the file, the temporary name goes.
    let mid := fs.setName target (some inode)
      (fun _ same => Option.some.inj same ▸ fs.allocated _ inode named)
    have pointed : Sound world (some call) links mid pcs := by
      refine sound.point rfl rfl rfl ?_ (fun other same => absurd same (lasting other))
      intro other same
      obtain rfl := Option.some.inj same
      exact ⟨fits inode named, unwritten⟩
    have removed : Sound world (some call) links fs' pcs :=
      pointed.point names contents next (by simp)
        (fun other same => congrArg some (Path.temp.inj same))
    exact removed.quiet standing writes reads

theorem cleanup (sound : Sound world (some call) links fs pcs)
    (standing : ∀ fs' : Fs Call Src, fs'.names (.temp call) = none → Standing world links fs' call pc)
    (writes : pc.writes = none) (reads : pc.reads = none)
    : Sound world none links (fs.discard (.temp call)) (Function.update pcs call pc) := by
  obtain ⟨names, contents, next⟩ := FileSystem.discard_spec fs (.temp call)
  have removed : Sound world (some call) links (fs.discard (.temp call)) pcs :=
    sound.point names contents next (by simp)
      (fun other same => congrArg some (Path.temp.inj same))
  refine removed.quiet (standing _ ?_) writes reads
  rw [names, Function.update_self]

end Sound

end GoREgo.Disk
