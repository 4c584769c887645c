import GoREgo.Lib.Maps
import GoREgo.Storage.UploadFlow

/-! Content addressing: the bytes that a `Get` returns are bytes that the store was given for
the hash. The store compares lengths with the size of the upload and computes no hash.
-/

namespace GoREgo

open Lib

namespace LocalStore

variable {digest : Digest} {files files' : Files} {outcome : Outcome}

def PutFile.Carries (file : Bytes) : PutFile → Prop
  | .close written => written = file
  | .chmod _ written => written = file
  | .rename written => written = file
  | _ => True

/-- A filesystem call of `PutFile` keeps its file together: the copy is closed when it is
whole, and a hard link is whole at once.
-/
theorem PutFile.Carries.disk {file : Bytes} {call call' : PutFile} (carries : call.Carries file)
    (taken : call.disk digest file files outcome = some (files', call'))
    : call'.Carries file := by
  cases call <;> cases outcome
  case stat.ok =>
    simp only [PutFile.disk] at taken
    split at taken
    all_goals
      obtain ⟨-, rfl⟩ := Prod.mk.inj (Option.some.inj taken)
      trivial
  case copy.ok =>
    simp only [PutFile.disk] at taken
    split at taken
    next whole =>
      obtain ⟨-, rfl⟩ := Prod.mk.inj (Option.some.inj taken)
      exact whole
    next => cases taken
  case returned.ok => cases taken
  case returned.fail => cases taken
  all_goals
    obtain ⟨-, rfl⟩ := Prod.mk.inj (Option.some.inj taken)
  case link.ok => rfl
  case close.ok => exact carries
  case chmod.ok => exact carries
  all_goals trivial

def Put.Carries (content rest : Bytes) : Put → Prop
  | .mkdirAll => rest = content
  | .createTemp => rest = content
  | .copy written => content = written ++ rest
  | .close written => written = content
  | .rename written => written = content
  | _ => True

theorem Put.Carries.disk {content rest : Bytes} {put put' : Put}
    (carries : put.Carries content rest)
    (taken : put.disk digest files outcome = some (files', put'))
    : put'.Carries content rest := by
  cases put <;> cases outcome
  case copy.ok => cases taken
  case returned.ok => cases taken
  case returned.fail => cases taken
  all_goals
    obtain ⟨-, rfl⟩ := Prod.mk.inj (Option.some.inj taken)
  case mkdirAll.ok => exact carries
  case createTemp.ok => exact carries.symm
  case close.ok => exact carries
  all_goals trivial

end LocalStore

namespace Proxy

open LocalStore

variable {Call : Type}

/-- The contents that a store is given for a hash: by a `Put` that was made as many bytes of
its data as its digest says, by a `PutFile` that was made its file, or by earlier uploads to
the remote tier.
-/
inductive World.Supplied (world : World Call) (made : Call → Prop) (hash : String)
    : Bytes → Prop
  | put {call digest data content} (asked : world.request call = .put digest data)
    (making : made call) (named : digest.hash = hash) (initial : content <+: data)
    (sized : (content.length : Int) = digest.sizeBytes)
    : World.Supplied world made hash content
  | putFile {call digest file} (asked : world.request call = .putFile digest file)
    (making : made call) (named : digest.hash = hash)
    : World.Supplied world made hash file
  | held {digest content} (given : world.held digest = some content)
    (named : digest.hash = hash)
    : World.Supplied world made hash content

theorem World.Supplied.mono {world : World Call} {made later : Call → Prop} {hash : String}
    {content : Bytes} (given : world.Supplied made hash content)
    (more : ∀ call, made call → later call)
    : world.Supplied later hash content := by
  cases given with
  | put asked making named initial sized =>
      exact .put asked (more _ making) named initial sized
  | putFile asked making named => exact .putFile asked (more _ making) named
  | held given named => exact .held given named

/-- Both tiers hold only contents that were given for their hash. -/
structure Tiers.Supplied (world : World Call) (made : Call → Prop) (tiers : Tiers)
    : Prop where
  files : ∀ hash content, tiers.files hash = some content → world.Supplied made hash content
  remote
    : ∀ digest content, tiers.remote digest = some content
        → world.Supplied made digest.hash content

section Tiers

variable {world : World Call} {made : Call → Prop} {tiers : Tiers} {digest : Digest}
  {content : Bytes}

theorem Tiers.Supplied.rename (supplied : tiers.Supplied world made)
    (given : world.Supplied made digest.hash content)
    : Tiers.Supplied world made
        { tiers with files := Function.update tiers.files digest.hash (some content) } where
  files hash other found := by
    rcases update_cases id found with ⟨rfl, here⟩ | ⟨-, there⟩
    · obtain rfl := Option.some.inj here
      exact given
    · exact supplied.files hash other there
  remote := supplied.remote

theorem Tiers.Supplied.commit (supplied : tiers.Supplied world made)
    (given : world.Supplied made digest.hash content)
    : (tiers.commit digest content).Supplied world made where
  files := supplied.files
  remote other committed found := by
    rcases update_cases id found with ⟨rfl, here⟩ | ⟨-, there⟩
    · obtain rfl := Option.some.inj here
      exact given
    · exact supplied.remote other committed there

theorem Tiers.Supplied.mono {later : Call → Prop} (supplied : tiers.Supplied world made)
    (more : ∀ call, made call → later call)
    : tiers.Supplied world later where
  files hash content found := (supplied.files hash content found).mono more
  remote digest content found := (supplied.remote digest content found).mono more

theorem Tiers.Supplied.disk (supplied : tiers.Supplied world made) {put put' : Put}
    {outcome : Outcome} {files : Files}
    (taken : put.disk digest tiers.files outcome = some (files, put'))
    (given : ∀ written, put = .rename written → world.Supplied made digest.hash written)
    : Tiers.Supplied world made { tiers with files } := by
  rcases Put.disk_cases taken with ⟨written, moving, -, -, rfl⟩ | ⟨rfl, -, -⟩
  · exact supplied.rename (given written moving)
  · exact supplied

end Tiers

theorem Fetch.copy_carries {digest : Digest} {content rest rest' : Bytes} {put put' : Put}
    {read : Read} (carries : put.Carries content rest) (left : read.after rest = some rest')
    (copied : Fetch.copy digest put read = some put')
    : put'.Carries content rest' := by
  cases read with
  | data bytes =>
      cases put with
      | copy written =>
          obtain rfl := Option.some.inj copied
          obtain rfl := Read.after_data left
          simpa [Put.Carries] using carries
      | _ => cases copied
  | error err =>
      obtain ⟨rfl, atEnd⟩ := Read.after_error left
      obtain ⟨written, rfl, ⟨isEof, -, rfl⟩ | ⟨-, failure, rfl⟩⟩ := Put.endCopy_spec copied
      · rw [atEnd isEof] at carries
        simpa [Put.Carries] using carries.symm
      · trivial

def Flight.Sourced (world : World Call) (made : Call → Prop) (call : Call) : Flight → Prop
  | .put rest upload =>
      ∃ digest data, world.request call = .put digest data ∧ upload.Flow digest data rest
  | .putFile (.store localCall) =>
      ∃ digest file, world.request call = .putFile digest file ∧ localCall.Carries file
  | .putFile _ => ∃ digest file, world.request call = .putFile digest file
  | .get (.fill rest localPut) =>
      ∃ content, world.Supplied made (world.digest call).hash content
        ∧ localPut.Carries content rest
  | .get _ => True

section Flights

variable {world : World Call} {made : Call → Prop} {call : Call} {limit : Nat}
  {tiers tiers' : Tiers}

theorem Tiers.Supplied.put (supplied : tiers.Supplied world made) {digest : Digest}
    {data rest : Bytes} {u u' : Upload} {event : Upload.Event}
    (asked : world.request call = .put digest data) (making : made call)
    (flow : u.Flow digest data rest)
    (effect : Upload.Effect digest tiers u event tiers' u')
    : tiers'.Supplied world made := by
  have given (complete : u.Complete digest data)
      : world.Supplied made digest.hash u.received :=
    .put asked making rfl complete.initial complete.sized
  rcases effect.tiers_cases with rfl | ⟨written, moving, rfl⟩ | ⟨seen, rfl⟩
  · exact supplied
  · obtain ⟨rfl, complete⟩ := flow.renamed moving
    exact supplied.rename (given complete)
  · obtain ⟨temp, returned⟩ := flow.seen seen
    exact supplied.commit (given (flow.returned returned))

theorem Flight.Sourced.putFile (supplied : tiers.Supplied world made) {digest : Digest}
    {file : Bytes} {impl impl' : FileUpload} {event : FileUpload.Event}
    (asked : world.request call = .putFile digest file) (making : made call)
    (sourced : (Flight.putFile impl).Sourced world made call)
    (effect : FileUpload.Effect limit digest file tiers impl event tiers' impl')
    : (Flight.putFile impl').Sourced world made call ∧ tiers'.Supplied world made := by
  have given : world.Supplied made digest.hash file := .putFile asked making rfl
  cases effect with
  | disk taken =>
      obtain ⟨_, _, askedToo, carries⟩ := sourced
      obtain ⟨rfl, rfl⟩ := Request.putFile.inj (asked.symm.trans askedToo)
      refine ⟨⟨digest, file, asked, carries.disk taken⟩, ?_⟩
      rcases PutFile.disk_cases taken with ⟨written, rfl, -, rfl⟩ | ⟨rfl, -⟩
      · obtain rfl : written = file := carries
        exact supplied.rename given
      · exact supplied
  | copies => exact ⟨⟨digest, file, asked, trivial⟩, supplied⟩
  | commits => exact ⟨⟨digest, file, asked⟩, supplied.commit given⟩
  | _ => exact ⟨⟨digest, file, asked⟩, supplied⟩

theorem Flight.Sourced.get (supplied : tiers.Supplied world made) {fetch fetch' : Fetch}
    {event : Fetch.Event} (sourced : (Flight.get fetch).Sourced world made call)
    (taken : fetch.step (world.digest call) tiers event = some (tiers', fetch'))
    : (Flight.get fetch').Sourced world made call ∧ tiers'.Supplied world made := by
  cases Fetch.step_effect taken with
  | @gets content found =>
      exact ⟨⟨content, supplied.remote _ content found, rfl⟩, supplied⟩
  | getFails => exact ⟨trivial, supplied⟩
  | copies left copied =>
      obtain ⟨content, given, carries⟩ := sourced
      exact ⟨⟨content, given, Fetch.copy_carries carries left copied⟩, supplied⟩
  | writes called =>
      obtain ⟨content, given, carries⟩ := sourced
      refine ⟨⟨content, given, carries.disk called⟩, supplied.disk called ?_⟩
      rintro written rfl
      obtain rfl : written = content := carries
      exact given
  | ends => exact ⟨trivial, supplied⟩

theorem Flight.Sourced.effect (supplied : tiers.Supplied world made) (making : made call)
    {flight flight' : Flight} {event : Flight.Event}
    (sourced : flight.Sourced world made call)
    (effect : Flight.Effect limit (world.request call) tiers flight event tiers' flight')
    : flight'.Sourced world made call ∧ tiers'.Supplied world made := by
  cases effect with
  | put left effect honest =>
      obtain ⟨digest, data, asked, flow⟩ := sourced
      rw [asked] at effect
      exact ⟨⟨digest, data, asked, flow.effect left effect⟩,
        supplied.put asked making flow effect⟩
  | @putFile impl impl' event tiers' effect honest =>
      obtain ⟨digest, file, asked⟩ : ∃ digest file,
          world.request call = .putFile digest file := by
        cases impl with
        | store localCall =>
            obtain ⟨digest, file, asked, -⟩ := sourced
            exact ⟨digest, file, asked⟩
        | _ => exact sourced
      rw [asked] at effect
      exact Flight.Sourced.putFile supplied asked making sourced effect
  | get taken => exact Flight.Sourced.get supplied sourced taken

theorem Flight.Sourced.mono {later : Call → Prop} {flight : Flight}
    (sourced : flight.Sourced world made call) (more : ∀ call, made call → later call)
    : flight.Sourced world later call := by
  cases flight with
  | put rest upload => exact sourced
  | putFile impl => cases impl <;> exact sourced
  | get fetch =>
      cases fetch with
      | fill rest localPut =>
          obtain ⟨content, given, carries⟩ := sourced
          exact ⟨content, given.mono more, carries⟩
      | _ => trivial

end Flights

def Pc.begun : Pc Call → Bool
  | .start => false
  | .entering => false
  | _ => true

def State.Made (s : State Call) (call : Call) : Prop :=
  (s.pcs call).begun = true

/-- Everything in the store was given for its hash by a call that was made: in the tiers, in
the flights and in the replies of `Get`.
-/
structure Sourced (world : World Call) (s : State Call) : Prop where
  tiers : s.tiers.Supplied world s.Made
  flight : ∀ call flight, s.pcs call = .flying flight → flight.Sourced world s.Made call
  reply
    : ∀ call content, (s.pcs call).content = some content
        → world.Supplied s.Made (world.digest call).hash content

section Runs

variable {world : World Call} {s s' : State Call}

theorem sourced_new (world : World Call) : Sourced world (State.new world) where
  tiers := ⟨fun _ _ found => (nomatch found), fun _ _ found => .held found rfl⟩
  flight call _ flying := by
    cases request : world.request call <;> simp [State.new, Request.begin, request] at flying
  reply call _ returned := by
    cases request : world.request call <;>
      simp [State.new, Request.begin, Pc.content, request] at returned

variable {call : Call} {pc : Pc Call}

theorem Flight.sourced_new {made : Call → Prop} {flight : Flight}
    (begins : (world.request call).flight = some flight)
    : flight.Sourced world made call := by
  cases asked : world.request call with
  | put digest data =>
      rw [asked] at begins
      obtain rfl := Option.some.inj begins
      exact ⟨digest, data, asked, Upload.flow_new digest data⟩
  | putFile digest file =>
      rw [asked] at begins
      obtain rfl := Option.some.inj begins
      exact ⟨digest, file, asked, trivial⟩
  | get digest =>
      rw [asked] at begins
      obtain rfl := Option.some.inj begins
      trivial
  | has digest =>
      rw [asked] at begins
      cases begins

theorem Request.landed_begun (request : Request) (err : Option IoError)
    : (request.landed err : Pc Call).begun = true := by
  cases request <;> cases err <;> rfl

variable [DecidableEq Call]

theorem State.Made.setPc {other : Call} (onward : (s.pcs call).begun = true → pc.begun = true)
    (made : s.Made other)
    : (s.setPc call pc).Made other := by
  unfold State.Made at *
  by_cases same : other = call
  · subst same
    rw [State.setPc_self]
    exact onward made
  · rw [s.setPc_of_ne same]
    exact made

theorem Sourced.setPc (sourced : Sourced world s)
    (onward : (s.pcs call).begun = true → pc.begun = true) (flight
      : ∀ flight, pc = .flying flight → flight.Sourced world (s.setPc call pc).Made call) (reply
      : ∀ content, pc.content = some content
          → world.Supplied s.Made (world.digest call).hash content)
    : Sourced world (s.setPc call pc) where
  tiers := sourced.tiers.mono (fun _ => State.Made.setPc onward)
  flight other flown flying := by
    rcases update_cases id flying with ⟨rfl, here⟩ | ⟨-, there⟩
    · exact flight flown here
    · exact (sourced.flight other flown there).mono (fun _ => State.Made.setPc onward)
  reply other content returned := by
    rcases update_cases Pc.content returned with ⟨rfl, here⟩ | ⟨-, there⟩
    · exact (reply content here).mono (fun _ => State.Made.setPc onward)
    · exact (sourced.reply other content there).mono (fun _ => State.Made.setPc onward)

theorem Sourced.ownCode (sourced : Sourced world s)
    (onward : (s.pcs call).begun = true → pc.begun = true)
    (own : pc.ownCode = true ∧ pc.content = none)
    : Sourced world (s.setPc call pc) := by
  refine sourced.setPc onward ?_ ?_
  · rintro flight rfl
    cases own.1
  · intro content returned
    cases own.2.symm.trans returned

theorem Sourced.flying (sourced : Sourced world s) {flight : Flight}
    (given : flight.Sourced world (s.setPc call (.flying flight)).Made call)
    : Sourced world (s.setPc call (.flying flight)) := by
  refine sourced.setPc (fun _ => rfl) ?_ (fun _ returned => nomatch returned)
  intro flown same
  obtain rfl := Pc.flying.inj same
  exact given

theorem Sourced.landed (sourced : Sourced world s) (call : Call) (err : Option IoError)
    : Sourced world (s.setPc call ((world.request call).landed err)) :=
  sourced.ownCode (fun _ => Request.landed_begun ..) (Request.landed_ownCode ..)

theorem Sourced.effect (sourced : Sourced world s) {move : Move}
    (effect : Effect world s call move s')
    : Sourced world s' := by
  cases effect with
  | checked at_ =>
      exact sourced.ownCode (by rw [at_]; exact nofun) (Request.checked_ownCode ..)
  | joins at_ found =>
      exact sourced.setPc (fun _ => rfl) (fun _ same => nomatch same)
        (fun _ returned => nomatch returned)
  | leads at_ free begins => exact { sourced.flying (Flight.sourced_new begins) with }
  | @flies flight event tiers flight' at_ taken =>
      have making : s.Made call := by
        rw [State.Made, at_]
        rfl
      obtain ⟨given, supplied⟩ := (sourced.flight call flight at_).effect sourced.tiers making
        (Flight.step_effect taken)
      have more : ∀ other, s.Made other → (s.setPc call (.flying flight')).Made other :=
        fun _ => State.Made.setPc (fun _ => rfl)
      exact { sourced.flying (given.mono more) with tiers := supplied.mono more }
  | leaves at_ ended => exact { sourced.landed call _ with }
  | wakes at_ landed => exact sourced.landed call _
  | @opens outcome at_ =>
      refine sourced.setPc (fun _ => rfl) (fun _ same => nomatch same) ?_
      intro content returned
      cases outcome with
      | ok =>
          simp only [Request.opened] at returned
          split at returned
          next found =>
            obtain rfl := Option.some.inj returned
            exact sourced.tiers.files _ _ found
          next => cases returned
      | fail err => cases returned
  | @asks outcome at_ =>
      cases outcome <;> exact sourced.ownCode (fun _ => rfl) ⟨rfl, rfl⟩

theorem sourced_inductive : (machine world).Inductive Machine.anyStep (Sourced world) where
  start s initial := by
    rw [initial]
    exact sourced_new world
  keeps s label s' sourced _ taken := sourced.effect (step_effect taken)

/-- Every call of `PutFile` names the digest of its file. -/
def World.FilesHashed (world : World Call) (sha : Bytes → String) : Prop :=
  ∀ call digest file, world.request call = .putFile digest file
    → digest = ⟨sha file, file.length⟩

/-- Clients told the truth about a hash: whatever a `Put` supplies for it, and whatever the
remote tier was given for it before, has that hash.
-/
structure World.Truthful (world : World Call) (sha : Bytes → String) (hash : String)
    : Prop where
  put
    : ∀ call digest data content, world.request call = .put digest data
        → digest.hash = hash → content <+: data
        → (content.length : Int) = digest.sizeBytes → sha content = hash
  held
    : ∀ digest content, world.held digest = some content → digest.hash = hash
        → sha content = hash

/-- Every `Put` for the hash of a digest names the size in it, and every other content for
the hash has that size.
-/
structure World.Sized (world : World Call) (digest : Digest) : Prop where
  put
    : ∀ call other data, world.request call = .put other data → other.hash = digest.hash
        → other.sizeBytes = digest.sizeBytes
  putFile
    : ∀ call other file, world.request call = .putFile other file
        → other.hash = digest.hash → (file.length : Int) = digest.sizeBytes
  held
    : ∀ other content, world.held other = some content → other.hash = digest.hash
        → (content.length : Int) = digest.sizeBytes

/-- In every run a successful `Get` returns bytes that the store was given for the hash. They
have the hash when the clients told the truth about it, and the size when the contents for
the hash all have it.
-/
theorem get_returns_supplied {sha : Bytes → String} (hashed : world.FilesHashed sha)
    (reach : (machine world).Reachable Machine.anyStep s) {call : Call} {content : Bytes}
    (returned : s.pcs call = .returned (.get (.ok content)))
    : world.Supplied s.Made (world.digest call).hash content
      ∧ (world.Truthful sha (world.digest call).hash
        → sha content = (world.digest call).hash)
      ∧ (world.Sized (world.digest call)
        → (content.length : Int) = (world.digest call).sizeBytes) := by
  have supplied : world.Supplied s.Made (world.digest call).hash content := by
    refine (sourced_inductive.reachable reach).reply call content ?_
    rw [returned]
    rfl
  refine ⟨supplied, ?_, ?_⟩
  · intro truthful
    cases supplied with
    | put asked _ named initial sized => exact truthful.put _ _ _ _ asked named initial sized
    | putFile asked _ named =>
        rw [hashed _ _ _ asked] at named
        exact named
    | held given named => exact truthful.held _ _ given named
  · intro agreed
    cases supplied with
    | put asked _ named _ sized => exact sized.trans (agreed.put _ _ _ asked named)
    | putFile asked _ named => exact agreed.putFile _ _ _ asked named
    | held given named => exact agreed.held _ _ given named

end Runs

/-- One client puts the byte 7 under a hash, and one asks for the hash. -/
def putAndGet (hash : String) : World (Fin 2) where
  request
    | 0 => .put ⟨hash, 1⟩ [7]
    | 1 => .get ⟨hash, 1⟩
  putRetryCount := 1
  held _ := none

theorem putAndGet_filesHashed (hash : String) (sha : Bytes → String)
    : (putAndGet hash).FilesHashed sha := by
  intro call digest file asked
  match call with
  | 0 => cases asked
  | 1 => cases asked

/-- The `Put` writes the byte through to both tiers, and the `Get` finds it locally. -/
def putThenGet : List (Label (Fin 2)) :=
  [⟨0, .stat .ok⟩, ⟨0, .enter⟩]
    ++ [.disk .ok, .disk .ok, .source (.data [7]), .remoteRead 1, .teeReturn,
        .source (.error .eof), .disk .ok, .disk .ok, .disk .ok, .disk .ok, .closeWriter,
        .remoteEnd, .commit, .remoteReturn none].map (fun event => ⟨0, .flight (.put event)⟩)
    ++ [⟨0, .leave⟩, ⟨1, .stat .ok⟩, ⟨1, .openFile .ok⟩]

/-- The `Get` returns the byte that was put, which is the one content given for the hash. -/
theorem put_then_get_supplied
    : ∃ s, (machine (putAndGet "aaaa")).Reachable Machine.anyStep s
        ∧ s.pcs 1 = .returned (.get (.ok [7]))
        ∧ (putAndGet "aaaa").Supplied s.Made "aaaa" [7] := by
  obtain ⟨s, run, tested⟩ := Machine.exists_run_of_exec (machine (putAndGet "aaaa"))
    (State.new (putAndGet "aaaa")) putThenGet
    (fun s => s.pcs 1 = .returned (.get (.ok [7]))) (by decide)
  have returned := of_decide_eq_true tested
  have reach : (machine (putAndGet "aaaa")).Reachable Machine.anyStep s :=
    ⟨_, _, rfl, run⟩
  have hashed := putAndGet_filesHashed "aaaa" (fun _ => "aaaa")
  exact ⟨s, reach, returned, (get_returns_supplied hashed reach returned).1⟩

/-- Whatever the hash function, some `Get` returns bytes with another hash: the store never
computes it, so one byte can be put under two hashes and is returned for both.
-/
theorem get_ignores_hash
    : ¬ ∃ sha : Bytes → String,
        ∀ (world : World (Fin 2)) s call content,
          world.FilesHashed sha
          → (machine world).Reachable Machine.anyStep s
          → s.pcs call = .returned (.get (.ok content))
          → (content.length : Int) = (world.digest call).sizeBytes
            ∧ sha content = (world.digest call).hash := by
  rintro ⟨sha, always⟩
  have hashes (hash : String)
      (passes
        : ((machine (putAndGet hash)).exec (State.new (putAndGet hash)) putThenGet).any
            (fun s => s.pcs 1 = .returned (.get (.ok [7]))) = true)
      : sha [7] = hash := by
    obtain ⟨s, run, tested⟩ := Machine.exists_run_of_exec _ _ _ _ passes
    exact (always (putAndGet hash) s 1 [7] (putAndGet_filesHashed hash sha)
      ⟨_, _, rfl, run⟩ (of_decide_eq_true tested)).2
  have first := hashes "aaaa" (by decide)
  have second := hashes "bbbb" (by decide)
  exact absurd (first.symm.trans second) (by decide)

end Proxy

end GoREgo
