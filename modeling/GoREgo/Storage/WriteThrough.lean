import GoREgo.Lib.Maps
import GoREgo.Storage.Effects
import Mathlib.Data.Fintype.Basic

/-! Write-through: what a nil `Put` or a found `Has` says about the remote tier. The local
blob is in place before the remote upload has ended, and later calls trust it.
-/

namespace GoREgo.Proxy

open Lib LocalStore

def Flight.inPlace : Flight → Bool
  | .put _ upload => upload.localPut.stored
  | .putFile (.store call) => call.stored
  | .putFile (.returned _) => false
  | .putFile _ => true
  | .get _ => false

/-- The events that leave a local blob behind a failed upload: a failed `Chmod`, the rename
after the remote `Put` has failed, an error of the remote `Put` after the rename, and the
end of `PutFile`'s attempts.
-/
def Flight.abandons (limit : Nat) : Flight → Event → Bool
  | .put _ upload, .put (.disk (.fail _)) => upload.localPut == .chmod
  | .put _ { localPut := .rename _, remote := some (some _), .. }, .put (.disk .ok) => true
  | .put _ upload, .put (.remoteReturn (some _)) => upload.localPut.stored
  | .putFile (.openFile _), .putFile (.disk (.fail _)) => true
  | .putFile (.failed _ _), .putFile (.checkContext (some _)) => true
  | .putFile (.failed attempt _), .putFile (.checkContext none) => limit ≤ attempt
  | _, _ => false

/-- The remote tier holds the blob of every flight that has used it or was left by it: a
`Put` whose remote side returned nil, or failed with the blob in place, a `PutFile` that
returned nil, and a fetch that found the blob.
-/
def Flight.Kept (request : Request) (tiers : Tiers) : Flight → Prop
  | .put _ upload =>
      ∀ err, upload.remote = some err → (err = none ∨ upload.localPut.stored = true)
        → tiers.holds request.digest = true
  | .putFile (.returned none) => tiers.holds request.digest = true
  | .get (.fill _ _) => tiers.holds request.digest = true
  | .get (.returned none) => tiers.holds request.digest = true
  | _ => True

structure Flight.Advances (request : Request) (tiers tiers' : Tiers) (flight flight' : Flight)
    : Prop where
  remote : ∀ digest, tiers.holds digest = true → tiers'.holds digest = true
  kept : flight'.Kept request tiers'
  files
    : ∀ hash, (tiers'.files hash).isSome = true
        → (tiers.files hash).isSome = true
          ∨ (hash = request.digest.hash
            ∧ (flight'.inPlace = true ∨ tiers'.holds request.digest = true))
  inPlace
    : flight.inPlace = true
        → flight'.inPlace = true ∨ tiers'.holds request.digest = true

section Flights

variable {limit : Nat} {request : Request} {tiers tiers' : Tiers}

theorem files_update {files : Files} {hash other : String} {content : Bytes}
    (found : (Function.update files hash (some content) other).isSome = true)
    : (files other).isSome = true ∨ other = hash := by
  by_cases same : other = hash
  · exact Or.inr same
  · rw [Function.update_of_ne same] at found
    exact Or.inl found

variable {flight : Flight}

theorem Flight.Advances.quiet {flight' : Flight} (kept : flight'.Kept request tiers) (inPlace
      : flight.inPlace = true → flight'.inPlace = true ∨ tiers.holds request.digest = true)
    : Flight.Advances request tiers tiers flight flight' where
  remote _ held := held
  kept := kept
  files _ found := Or.inl found
  inPlace := inPlace

theorem Flight.Advances.unstored {rest rest' : Bytes} {u u' : Upload}
    (kept : (Flight.put rest u).Kept request tiers) (same : u'.remote = u.remote)
    (before : u.localPut.stored = false) (after : u'.localPut.stored = false)
    : Flight.Advances request tiers tiers (.put rest u) (.put rest' u') := by
  refine .quiet ?_ ?_
  · intro err returned cause
    rw [after] at cause
    exact kept err (same ▸ returned) (Or.inl (cause.resolve_right nofun))
  · intro stored
    exact absurd (before.symm.trans stored) nofun

theorem Flight.Advances.put {rest rest' : Bytes} {u u' : Upload} {event : Upload.Event}
    (effect : Upload.Effect request.digest tiers u event tiers' u')
    (honest : event = .remoteReturn none → tiers.holds request.digest = true)
    (kept : (Flight.put rest u).Kept request tiers)
    (spared
      : (Flight.put rest u).abandons limit (.put event) = true
          → tiers.holds request.digest = true)
    : Flight.Advances request tiers tiers' (.put rest u) (.put rest' u') := by
  have unstored {written} (copying : u.localPut = .copy written)
      : u.localPut.stored = false := by
    rw [copying]
    rfl
  cases effect with
  | reads copying => exact .unstored kept rfl (unstored copying) (unstored copying)
  | sourceEnds copying _ ends =>
      exact .unstored kept rfl (unstored copying) (Put.endCopy_not_stored ends)
  | copies copying => exact .unstored kept rfl (unstored copying) rfl
  | teeFails copying _ _ _ ends =>
      exact .unstored kept rfl (unstored copying) (Put.endCopy_not_stored ends)
  | @writes outcome files next idle taken =>
      rcases Put.disk_cases taken with ⟨written, moving, rfl, rfl, rfl⟩ | ⟨rfl, back, forth⟩
      · refine ⟨fun _ held => held, ?_, ?_, fun _ => Or.inl rfl⟩
        · intro err returned _
          cases err with
          | none => exact kept none returned (Or.inl rfl)
          | some err =>
              obtain ⟨localPut, pipe, closed, received, seen, remote⟩ := u
              obtain rfl : localPut = .rename written := moving
              obtain rfl : remote = some (some err) := returned
              exact spared rfl
        · intro hash found
          exact (files_update found).imp_right (fun same => ⟨same, Or.inl rfl⟩)
      · refine ⟨fun _ held => held, ?_, fun _ found => Or.inl found, ?_⟩
        · intro err returned cause
          exact kept err returned (cause.imp_right back)
        · intro stored
          rcases forth stored with stays | ⟨atChmod, err, rfl⟩
          · exact Or.inl stays
          · exact Or.inr (spared (beq_iff_eq.mpr atChmod))
  | closes => exact .quiet kept Or.inl
  | remoteReads => exact .quiet kept Or.inl
  | remoteSees => exact .quiet kept Or.inl
  | commits =>
      refine ⟨fun _ => Tiers.holds_commit, ?_, fun _ found => Or.inl found, Or.inl⟩
      intro err returned cause
      exact Tiers.holds_commit (kept err returned cause)
  | @remoteReturns err running =>
      refine .quiet ?_ Or.inl
      intro returned same cause
      obtain rfl := Option.some.inj same
      cases err with
      | none => exact honest rfl
      | some err => exact spared (cause.resolve_left nofun)

/-- An event of `putFileImpl` that abandons nothing advances its flight.
Witness: once the local file is there, the flight ends with nil or is abandoned.
-/
theorem Flight.Advances.putFile {impl impl' : FileUpload} {event : FileUpload.Event}
    (effect
      : FileUpload.Effect limit request.digest request.file tiers impl event tiers' impl')
    (honest : event = .remoteReturn none → tiers.holds request.digest = true)
    (spared
      : (Flight.putFile impl).abandons limit (.putFile event) = true
          → tiers.holds request.digest = true)
    : Flight.Advances request tiers tiers' (.putFile impl) (.putFile impl') := by
  cases effect with
  | disk taken =>
      rcases PutFile.disk_cases taken with ⟨written, -, rfl, rfl⟩ | ⟨rfl, stays⟩
      · refine ⟨fun _ held => held, trivial, ?_, fun _ => Or.inl rfl⟩
        intro hash found
        exact (files_update found).imp_right (fun same => ⟨same, Or.inl rfl⟩)
      · exact .quiet trivial (fun stored => Or.inl (stays stored))
  | copies => exact .quiet trivial nofun
  | refused => exact .quiet trivial nofun
  | stored => exact .quiet trivial Or.inl
  | opens => exact .quiet trivial Or.inl
  | openFails => exact .quiet trivial (fun _ => Or.inr (spared rfl))
  | commits =>
      exact ⟨fun _ => Tiers.holds_commit, trivial, fun _ found => Or.inl found, Or.inl⟩
  | succeeds => exact .quiet (honest rfl) (fun _ => Or.inr (honest rfl))
  | fails => exact .quiet trivial Or.inl
  | cancelled => exact .quiet trivial (fun _ => Or.inr (spared rfl))
  | retries => exact .quiet trivial Or.inl
  | givesUp last => exact .quiet trivial (fun _ => Or.inr (spared (decide_eq_true last)))

theorem Flight.Advances.get {fetch fetch' : Fetch} {event : Fetch.Event}
    (taken : fetch.step request.digest tiers event = some (tiers', fetch'))
    (kept : (Flight.get fetch).Kept request tiers)
    : Flight.Advances request tiers tiers' (.get fetch) (.get fetch') := by
  cases Fetch.step_effect taken with
  | @gets content found =>
      exact .quiet (Option.isSome_iff_exists.mpr ⟨content, found⟩) nofun
  | getFails => exact .quiet trivial nofun
  | copies => exact .quiet kept nofun
  | writes called =>
      refine ⟨fun _ held => held, kept, ?_, nofun⟩
      rcases Put.disk_cases called with ⟨written, -, -, -, rfl⟩ | ⟨rfl, -, -⟩
      · intro hash found
        exact (files_update found).imp_right (fun same => ⟨same, Or.inr kept⟩)
      · exact fun _ found => Or.inl found
  | @ends rest temp err =>
      cases err with
      | none => exact .quiet kept nofun
      | some err => exact .quiet trivial nofun

theorem Flight.Advances.of_effect {flight' : Flight} {event : Flight.Event}
    (effect : Flight.Effect limit request tiers flight event tiers' flight')
    (kept : flight.Kept request tiers)
    (spared : flight.abandons limit event = true → tiers.holds request.digest = true)
    : Flight.Advances request tiers tiers' flight flight' := by
  cases effect with
  | put _ effect honest => exact .put effect honest kept spared
  | putFile effect honest => exact .putFile effect honest spared
  | get taken => exact .get taken kept

theorem Flight.Kept.mono (kept : flight.Kept request tiers)
    (remote : ∀ digest, tiers.holds digest = true → tiers'.holds digest = true)
    : flight.Kept request tiers' := by
  cases flight with
  | put rest u => exact fun err returned cause => remote _ (kept err returned cause)
  | putFile impl =>
      cases impl with
      | returned err =>
          cases err with
          | none => exact remote _ kept
          | some err => trivial
      | _ => trivial
  | get fetch =>
      cases fetch with
      | get => trivial
      | fill rest localPut => exact remote _ kept
      | returned err =>
          cases err with
          | none => exact remote _ kept
          | some err => trivial

theorem Flight.Kept.inPlace_holds {err : Option IoError} (kept : flight.Kept request tiers)
    (ended : flight.result = some err) (inPlace : flight.inPlace = true)
    : tiers.holds request.digest = true := by
  rcases Flight.result_spec ended with ⟨rest, u, rfl, ended⟩ | rfl | rfl
  · obtain ⟨_, _, remoteErr, -, finished, -⟩ := Upload.result_spec ended
    exact kept remoteErr finished (Or.inr inPlace)
  · cases inPlace
  · cases inPlace

theorem Flight.Kept.nil_holds (kept : flight.Kept request tiers) (ended : flight.result = some none)
    : tiers.holds request.digest = true := by
  rcases Flight.result_spec ended with ⟨rest, u, rfl, ended⟩ | rfl | rfl
  · obtain ⟨_, _, remoteErr, -, finished, ⟨-, rfl⟩ | ⟨_, -, failed⟩⟩ :=
      Upload.result_spec ended
    · exact kept none finished (Or.inl rfl)
    · cases failed
  · exact kept
  · exact kept

end Flights

def Pc.inPlace {Call : Type} : Pc Call → Bool
  | .flying flight => flight.inPlace
  | _ => false

def Request.trustsFiles : Request → Bool
  | .put _ _ => true
  | .has _ => true
  | _ => false

def Reply.succeeded : Reply → Bool
  | .put err => err.isNone
  | .get _ => false
  | .has found _ => found

section Calls

variable {Call : Type}

/-- The remote tier holds the blob of every call that has succeeded. -/
def Durable (world : World Call) (s : State Call) : Prop :=
  ∀ call reply, s.pcs call = .returned reply → reply.succeeded = true
    → s.tiers.holds (world.digest call) = true

def World.SizesAgree (world : World Call) : Prop :=
  ∀ call other, (world.digest call).hash = (world.digest other).hash
    → world.digest call = world.digest other

/-- A step that spares the write-through. No `Put` or `Has` finds the blob of an upload that
is in place and not yet with the remote tier, and no upload is abandoned with its blob in
place unless the remote tier holds the blob already.
-/
def Spares (world : World Call) (s : State Call) (label : Label Call) : Prop :=
  match s.pcs label.call, label.move with
  | .start, .stat _ =>
      (world.request label.call).trustsFiles = true
        → (s.tiers.files (world.digest label.call).hash).isSome = true
        → ∀ other, (s.pcs other).inPlace = true
          → (world.digest other).hash = (world.digest label.call).hash
          → s.tiers.holds (world.digest other) = true
  | .flying flight, .flight event =>
      flight.abandons world.limit event = true
        → s.tiers.holds (world.digest label.call) = true
  | _, _ => True

instance [Fintype Call] (world : World Call) (s : State Call) (label : Label Call)
    : Decidable (Spares world s label) := by
  dsimp only [Spares]
  generalize s.pcs label.call = pc
  generalize label.move = move
  exact match pc, move with
    | .start, .stat _ | .flying _, .flight _ => inferInstanceAs (Decidable (_ → _))
    | .start, .enter | .start, .flight _ | .start, .leave | .start, .wake | .start, .openFile _
    | .start, .ask _ | .flying _, .stat _ | .flying _, .enter | .flying _, .leave
    | .flying _, .wake | .flying _, .openFile _ | .flying _, .ask _ | .entering, _
    | .joined _, _ | .opening, _ | .asking, _ | .returned _, _ => inferInstanceAs (Decidable True)

/-- What makes the store durable: a local blob is with the remote tier or belongs to an
upload in place, and every flight and every result keeps its word.
-/
structure Backed (world : World Call) (s : State Call) : Prop where
  leader : ∀ key call, s.group key = some call → (world.request call).key = key
  follower
    : ∀ call leader, s.pcs call = .joined leader
        → (world.request leader).key = (world.request call).key
  flight
    : ∀ call flight, s.pcs call = .flying flight
        → flight.Kept (world.request call) s.tiers
  result
    : ∀ call, s.results call = some none → s.tiers.holds (world.digest call) = true
  durable : Durable world s
  files
    : ∀ call, (s.tiers.files (world.digest call).hash).isSome = true
        → s.tiers.holds (world.digest call) = true
          ∨ ∃ other, (s.pcs other).inPlace = true
            ∧ (world.digest other).hash = (world.digest call).hash

variable {world : World Call} {s s' : State Call}

variable {request : Request} {call : Call}

theorem Request.hash_of_key {other : Request} (same : request.key = other.key)
    : request.digest.hash = other.digest.hash := by
  cases request <;> cases other <;> simp_all [Request.key, Request.digest]

theorem landed_succeeded {err : Option IoError} {reply : Reply}
    (landed : (request.landed err : Pc Call) = .returned reply) (succeeded : reply.succeeded = true)
    : err = none := by
  cases err with
  | none => rfl
  | some err => cases request <;> cases landed <;> cases succeeded

theorem checked_succeeded {tiers : Tiers} {outcome : Outcome} {reply : Reply}
    (checked : (request.checked tiers outcome : Pc Call) = .returned reply)
    (succeeded : reply.succeeded = true)
    : request.trustsFiles = true ∧ (tiers.files request.digest.hash).isSome = true := by
  cases request with
  | put digest data =>
      simp only [Request.checked] at checked
      split at checked
      next hit => exact ⟨rfl, hit.2⟩
      next => cases checked
  | putFile digest file => cases checked
  | get digest =>
      simp only [Request.checked] at checked
      split at checked <;> cases checked
  | has digest =>
      cases outcome with
      | ok =>
          simp only [Request.checked] at checked
          split at checked
          next hit => exact ⟨rfl, hit⟩
          next => cases checked
      | fail err =>
          cases checked
          cases succeeded

theorem backed_new (world : World Call) : Backed world (State.new world) where
  leader _ _ led := nomatch led
  follower call _ joined := by
    cases request : world.request call <;> simp [State.new, Request.begin, request] at joined
  flight call _ flying := by
    cases request : world.request call <;> simp [State.new, Request.begin, request] at flying
  result _ landed := nomatch landed
  durable call _ returned := by
    cases request : world.request call <;> simp [State.new, Request.begin, request] at returned
  files _ found := nomatch found

variable [DecidableEq Call]

theorem Backed.setPc (agree : world.SizesAgree) (backed : Backed world s) {pc : Pc Call}
    (before : (s.pcs call).inPlace = true → s.tiers.holds (world.digest call) = true) (follower
      : ∀ leader, pc = .joined leader
          → (world.request leader).key = (world.request call).key) (flight
      : ∀ flight, pc = .flying flight → flight.Kept (world.request call) s.tiers) (durable
      : ∀ reply, pc = .returned reply → reply.succeeded = true
          → s.tiers.holds (world.digest call) = true)
    : Backed world (s.setPc call pc) where
  leader := backed.leader
  follower other leader joined := by
    rcases update_cases id joined with ⟨rfl, here⟩ | ⟨-, there⟩
    · exact follower leader here
    · exact backed.follower other leader there
  flight other flown flying := by
    rcases update_cases id flying with ⟨rfl, here⟩ | ⟨-, there⟩
    · exact flight flown here
    · exact backed.flight other flown there
  result := backed.result
  durable other reply returned succeeded := by
    rcases update_cases id returned with ⟨rfl, here⟩ | ⟨-, there⟩
    · exact durable reply here succeeded
    · exact backed.durable other reply there succeeded
  files other found := by
    rcases backed.files other found with held | ⟨owner, inPlace, sameHash⟩
    · exact Or.inl held
    · by_cases mine : owner = call
      · subst mine
        exact Or.inl (agree owner other sameHash ▸ before inPlace)
      · rw [← s.setPc_of_ne mine pc] at inPlace
        exact Or.inr ⟨owner, inPlace, sameHash⟩

theorem Backed.ownCode (agree : world.SizesAgree) (backed : Backed world s) {pc : Pc Call}
    (own : pc.ownCode = true)
    (before : (s.pcs call).inPlace = true → s.tiers.holds (world.digest call) = true) (durable
      : ∀ reply, pc = .returned reply → reply.succeeded = true
          → s.tiers.holds (world.digest call) = true)
    : Backed world (s.setPc call pc) := by
  refine backed.setPc agree before ?_ ?_ durable
  · rintro leader rfl
    cases own
  · rintro flight rfl
    cases own

theorem Backed.flies (agree : world.SizesAgree) (backed : Backed world s) {flight flight' : Flight}
    {tiers : Tiers} (at_ : s.pcs call = .flying flight)
    (advances : Flight.Advances (world.request call) s.tiers tiers flight flight')
    : Backed world { s.setPc call (.flying flight') with tiers } where
  leader := backed.leader
  follower other leader joined := by
    rcases update_cases id joined with ⟨-, here⟩ | ⟨-, there⟩
    · cases here
    · exact backed.follower other leader there
  flight other flown flying := by
    rcases update_cases id flying with ⟨rfl, here⟩ | ⟨-, there⟩
    · obtain rfl := Pc.flying.inj here
      exact advances.kept
    · exact (backed.flight other flown there).mono advances.remote
  result other landed := advances.remote _ (backed.result other landed)
  durable other reply returned succeeded := by
    rcases update_cases id returned with ⟨-, here⟩ | ⟨-, there⟩
    · cases here
    · exact advances.remote _ (backed.durable other reply there succeeded)
  files other found := by
    have own (backs : flight'.inPlace = true ∨ tiers.holds (world.digest call) = true)
        (sameHash : (world.digest call).hash = (world.digest other).hash)
        : tiers.holds (world.digest other) = true
          ∨ ∃ owner, ((s.setPc call (.flying flight')).pcs owner).inPlace = true
            ∧ (world.digest owner).hash = (world.digest other).hash := by
      rcases backs with inPlace | held
      · exact Or.inr ⟨call, by rw [State.setPc_self]; exact inPlace, sameHash⟩
      · exact Or.inl (agree call other sameHash ▸ held)
    rcases advances.files _ found with older | ⟨sameHash, backs⟩
    · rcases backed.files other older with held | ⟨owner, inPlace, sameHash⟩
      · exact Or.inl (advances.remote _ held)
      · by_cases mine : owner = call
        · subst mine
          rw [at_] at inPlace
          exact own (advances.inPlace inPlace) sameHash
        · rw [← s.setPc_of_ne mine (.flying flight')] at inPlace
          exact Or.inr ⟨owner, inPlace, sameHash⟩
    · exact own backs sameHash.symm

theorem Backed.leaves (agree : world.SizesAgree) (backed : Backed world s) {flight : Flight}
    {err : Option IoError} (at_ : s.pcs call = .flying flight) (ended : flight.result = some err)
    : Backed world
        { s.setPc call ((world.request call).landed err) with
          group := Function.update s.group (world.request call).key none
          results := Function.update s.results call (some err) } := by
  have kept := backed.flight call flight at_
  have moved : Backed world (s.setPc call ((world.request call).landed err)) := by
    refine backed.ownCode agree (Request.landed_ownCode ..).1 ?_ ?_
    · intro inPlace
      rw [at_] at inPlace
      exact kept.inPlace_holds ended inPlace
    · intro reply returned succeeded
      obtain rfl := landed_succeeded returned succeeded
      exact kept.nil_holds ended
  refine { moved with leader := ?_, result := ?_ }
  · intro key leader found
    rcases update_cases id found with ⟨-, here⟩ | ⟨-, there⟩
    · cases here
    · exact backed.leader key leader there
  · intro other landed
    rcases update_cases id landed with ⟨rfl, here⟩ | ⟨-, there⟩
    · obtain rfl := Option.some.inj here
      exact kept.nil_holds ended
    · exact backed.result other there

theorem Backed.leads (agree : world.SizesAgree) (backed : Backed world s) {flight : Flight}
    (at_ : s.pcs call = .entering) (begins : (world.request call).flight = some flight)
    : Backed world
        { s.setPc call (.flying flight) with
          group := Function.update s.group (world.request call).key (some call) } := by
  have moved : Backed world (s.setPc call (.flying flight)) := by
    refine backed.setPc agree ?_ ?_ ?_ ?_
    · intro inPlace
      rw [at_] at inPlace
      cases inPlace
    · exact fun _ same => nomatch same
    · intro flown same
      obtain rfl := Pc.flying.inj same
      cases request : world.request call <;> rw [request] at begins <;> cases begins
      · exact fun err returned => nomatch returned
      · trivial
      · trivial
    · exact fun _ same => nomatch same
  refine { moved with leader := ?_ }
  intro key leader found
  rcases update_cases id found with ⟨rfl, here⟩ | ⟨-, there⟩
  · obtain rfl := Option.some.inj here
    rfl
  · exact backed.leader key leader there

theorem Backed.effect (agree : world.SizesAgree) (backed : Backed world s) {move : Move}
    (effect : Effect world s call move s') (spared : Spares world s ⟨call, move⟩)
    : Backed world s' := by
  cases effect with
  | @checked outcome at_ =>
      refine backed.ownCode agree (Request.checked_ownCode ..).1 (by rw [at_]; exact nofun) ?_
      intro reply checked succeeded
      obtain ⟨trusts, found⟩ := checked_succeeded checked succeeded
      have window := spared
      simp only [Spares, at_] at window
      rcases backed.files call found with held | ⟨owner, inPlace, sameHash⟩
      · exact held
      · exact agree owner call sameHash ▸ window trusts found owner inPlace sameHash
  | @joins leader at_ found =>
      refine backed.setPc agree (by rw [at_]; exact nofun) ?_ ?_ ?_
      · intro other same
        obtain rfl := Pc.joined.inj same
        exact backed.leader _ leader found
      · exact fun _ same => nomatch same
      · exact fun _ same => nomatch same
  | leads at_ free begins => exact backed.leads agree at_ begins
  | @flies flight event tiers flight' at_ taken =>
      have abandoned := spared
      simp only [Spares, at_] at abandoned
      exact backed.flies agree at_
        (.of_effect (Flight.step_effect taken) (backed.flight call flight at_) abandoned)
  | leaves at_ ended => exact backed.leaves agree at_ ended
  | @wakes leader err at_ landed =>
      refine backed.ownCode agree (Request.landed_ownCode ..).1 (by rw [at_]; exact nofun) ?_
      intro reply returned succeeded
      obtain rfl := landed_succeeded returned succeeded
      have sameHash := Request.hash_of_key (backed.follower call leader at_)
      exact agree leader call sameHash ▸ backed.result leader landed
  | @opens outcome at_ =>
      refine backed.ownCode agree rfl (by rw [at_]; exact nofun) ?_
      intro reply returned succeeded
      obtain rfl := Pc.returned.inj returned
      cases outcome with
      | ok =>
          simp only [Request.opened] at succeeded
          split at succeeded <;> cases succeeded
      | fail err => cases succeeded
  | @asks outcome at_ =>
      refine backed.ownCode agree rfl (by rw [at_]; exact nofun) ?_
      intro reply returned succeeded
      obtain rfl := Pc.returned.inj returned
      cases outcome with
      | ok => exact succeeded
      | fail err => cases succeeded

theorem backed_inductive (agree : world.SizesAgree)
    : (machine world).Inductive (Spares world) (Backed world) where
  start s initial := by
    rw [initial]
    exact backed_new world
  keeps s label s' backed spared taken :=
    backed.effect agree (step_effect taken) spared

/-- In every run that spares the write-through, with one size for each hash, the remote tier
holds the blob of every `Put` and `PutFile` that returned nil and of every `Has` that
returned true.
-/
theorem success_is_durable (agree : world.SizesAgree)
    (reach : (machine world).Reachable (Spares world) s)
    : Durable world s :=
  ((backed_inductive agree).reachable reach).durable

end Calls

def twoPuts : World (Fin 2) where
  request _ := .put ⟨"abcd", 1⟩ [7]
  putRetryCount := 1
  held _ := none

def flightOf (call : Fin 2) (events : List Upload.Event) : List (Label (Fin 2)) :=
  [⟨call, .stat .ok⟩, ⟨call, .enter⟩] ++ events.map (fun event => ⟨call, .flight (.put event)⟩)
    ++ [⟨call, .leave⟩]

/-- The local side of an upload of one byte, which the remote side reads. -/
def localSide : List Upload.Event :=
  [.disk .ok, .disk .ok, .source (.data [7]), .remoteRead 1, .teeReturn,
    .source (.error .eof), .disk .ok, .disk .ok, .disk .ok, .disk .ok, .closeWriter]

/-- A remote side that fails before it has read anything fails the local copy, and the
retried `Put` uploads the blob.
-/
theorem retried_after_early_failure_durable
    : ∃ s, (machine twoPuts).Reachable (Spares twoPuts) s
        ∧ s.pcs 0 = .returned (.put (some (.other (.wrap "failed to write data"
            (.plain "unavailable")))))
        ∧ s.pcs 1 = .returned (.put none)
        ∧ Durable twoPuts s := by
  let labels : List (Label (Fin 2)) :=
    flightOf 0
        [.disk .ok, .disk .ok, .remoteReturn (some (.other (.plain "unavailable"))),
          .source (.data [7]), .teeReturn, .disk .ok, .closeWriter]
      ++ flightOf 1 (localSide ++ [.remoteEnd, .commit, .remoteReturn none])
  obtain ⟨s, run, tested⟩ := Machine.exists_run_of_execIf (machine twoPuts) (Spares twoPuts)
    (State.new twoPuts) labels
    (fun s => s.pcs 0 = .returned (.put (some (.other (.wrap "failed to write data"
        (.plain "unavailable")))))
      ∧ s.pcs 1 = .returned (.put none)) (by decide)
  simp only [Bool.decide_and, Bool.and_eq_true, decide_eq_true_eq] at tested
  have reach : (machine twoPuts).Reachable (Spares twoPuts) s :=
    ⟨State.new twoPuts, labels, rfl, run⟩
  exact ⟨s, reach, tested.1, tested.2, success_is_durable (fun _ _ _ => rfl) reach⟩

/-- A `Put` whose remote side fails after the local rename leaves the local blob, and the
retried `Put` returns nil on it.
-/
theorem retried_put_not_durable
    : ¬ ∀ s, (machine twoPuts).Reachable Machine.anyStep s → Durable twoPuts s := by
  intro always
  let labels : List (Label (Fin 2)) :=
    flightOf 0 (localSide ++ [.remoteReturn (some (.other (.plain "unavailable")))])
      ++ [⟨1, .stat .ok⟩]
  obtain ⟨s, run, tested⟩ := Machine.exists_run_of_exec (machine twoPuts)
    (State.new twoPuts) labels
    (fun s => s.pcs 0 = .returned (.put (some (.other (.plain "unavailable"))))
      ∧ s.pcs 1 = .returned (.put none)
      ∧ s.tiers.holds ⟨"abcd", 1⟩ = false) (by decide)
  simp only [Bool.decide_and, Bool.and_eq_true, decide_eq_true_eq] at tested
  obtain ⟨-, returned, missing⟩ := tested
  have durable := always s ⟨State.new twoPuts, labels, rfl, run⟩
  exact absurd ((durable 1 _ returned rfl).symm.trans missing) nofun

end GoREgo.Proxy
