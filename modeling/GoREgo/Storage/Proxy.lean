import GoREgo.Lib.Machine
import GoREgo.Storage.Flight

/-! `ProxyStore`: any number of `Put`, `PutFile`, `Get` and `Has` calls over one local and one
remote tier, with the flights of the singleflight group interleaved event by event.
-/

namespace GoREgo.Proxy

open Lib LocalStore

/-- The keys of the singleflight group: `"put:" + hash` for uploads and `hash` for fetches.
A hash is made of hex digits, so no key belongs to both families.
-/
inductive Key
  | put (hash : String)
  | get (hash : String)
deriving DecidableEq, Repr

def Request.key : Request → Key
  | .put digest _ => .put digest.hash
  | .putFile digest _ => .put digest.hash
  | .get digest => .get digest.hash
  | .has digest => .get digest.hash

/-- What a call returns. A successful `Get` is a handle on the contents that the file has
when it is opened.
-/
inductive Reply
  | put (err : Option IoError)
  | get (blob : Except IoError Bytes)
  | has (found : Bool) (err : Option IoError)
deriving DecidableEq

/-- Where a call is: before its local check, before `group.Do`, leading a flight, waiting for
another call's flight, before the local `Get`, before the remote `Has`, or returned.
-/
inductive Pc (Call : Type)
  | start
  | entering
  | flying (flight : Flight)
  | joined (leader : Call)
  | opening
  | asking
  | returned (reply : Reply)
deriving DecidableEq

def Pc.ownCode {Call : Type} : Pc Call → Bool
  | .flying _ => false
  | .joined _ => false
  | _ => true

def Pc.content {Call : Type} : Pc Call → Option Bytes
  | .returned (.get (.ok content)) => some content
  | _ => none

/-- What does not change while the store runs: the calls that clients make, the retry count
given to `NewProxyStore`, and what the remote tier was given before.
-/
structure World (Call : Type) where
  request : Call → Request
  putRetryCount : Int
  held : Digest → Option Bytes

/-- The number of attempts at a remote upload; `NewProxyStore` makes it at least one. -/
def World.limit {Call : Type} (world : World Call) : Nat :=
  if world.putRetryCount < 1 then 1 else world.putRetryCount.toNat

def World.digest {Call : Type} (world : World Call) (call : Call) : Digest :=
  (world.request call).digest

/-- The store and the calls on it. A finished flight leaves its result for the calls that
joined it.
-/
structure State (Call : Type) where
  tiers : Tiers
  group : Key → Option Call
  results : Call → Option (Option IoError)
  pcs : Call → Pc Call

/-- The steps that a call takes by itself, in the group and inside its flight. -/
inductive Move
  | stat (outcome : Outcome)
  | enter
  | flight (event : Flight.Event)
  | leave
  | wake
  | openFile (outcome : Outcome)
  | ask (outcome : Outcome)
deriving DecidableEq, Repr

structure Label (Call : Type) where
  call : Call
  move : Move
deriving DecidableEq, Repr

section Steps

variable {Call : Type}

/-- Where a call begins: `PutFile` has no local check of its own. -/
def Request.begin : Request → Pc Call
  | .putFile _ _ => .entering
  | _ => .start

/-- After the local check. `Put` and `Get` ignore its error; a `Put` of a blob that exists
drains its reader and returns nil.
-/
def Request.checked (tiers : Tiers) (outcome : Outcome) : Request → Pc Call
  | .put digest _ =>
      if outcome = .ok ∧ (tiers.files digest.hash).isSome then
        .returned (.put none)
      else
        .entering
  | .putFile _ _ => .entering
  | .get digest =>
      if outcome = .ok ∧ (tiers.files digest.hash).isSome then .opening else .entering
  | .has digest =>
      match outcome with
      | .fail err => .returned (.has false (some (.other err)))
      | .ok =>
          if (tiers.files digest.hash).isSome then .returned (.has true none) else .asking

/-- After `group.Do` has returned an error or nil. -/
def Request.landed : Request → Option IoError → Pc Call
  | .get _, none => .opening
  | .get _, some err => .returned (.get (.error err))
  | _, err => .returned (.put err)

/-- The local `Get` of a call. -/
def Request.opened (tiers : Tiers) (request : Request) : Outcome → Reply
  | .fail err => .get (.error (.other err))
  | .ok =>
      match tiers.files request.digest.hash with
      | some content => .get (.ok content)
      | none => .get (.error (.other (.plain "no such file or directory")))

/-- The remote `Has` of a call. -/
def Request.asked (tiers : Tiers) (request : Request) : Outcome → Reply
  | .fail err => .has false (some (.other err))
  | .ok => .has (tiers.remote request.digest).isSome none

theorem Request.landed_ownCode (request : Request) (err : Option IoError)
    : (request.landed err : Pc Call).ownCode = true
      ∧ (request.landed err : Pc Call).content = none := by
  cases request <;> cases err <;> exact ⟨rfl, rfl⟩

theorem Request.checked_ownCode (tiers : Tiers) (outcome : Outcome) (request : Request)
    : (request.checked tiers outcome : Pc Call).ownCode = true
      ∧ (request.checked tiers outcome : Pc Call).content = none := by
  cases request with
  | has digest =>
      cases outcome with
      | ok =>
          simp only [Request.checked]
          split <;> exact ⟨rfl, rfl⟩
      | fail err => exact ⟨rfl, rfl⟩
  | putFile digest file => exact ⟨rfl, rfl⟩
  | _ =>
      simp only [Request.checked]
      split <;> exact ⟨rfl, rfl⟩

variable [DecidableEq Call]

def State.setPc (s : State Call) (call : Call) (pc : Pc Call) : State Call :=
  { s with pcs := Function.update s.pcs call pc }

@[simp]
theorem State.setPc_self (s : State Call) (call : Call) (pc : Pc Call)
    : (s.setPc call pc).pcs call = pc :=
  Function.update_self ..

theorem State.setPc_of_ne (s : State Call) {call other : Call} (apart : other ≠ call)
    (pc : Pc Call)
    : (s.setPc call pc).pcs other = s.pcs other :=
  Function.update_of_ne apart ..

/-- One step of one call: in its own code, in the group, or inside the flight it leads. -/
def step (world : World Call) (s : State Call) (label : Label Call) : Option (State Call) :=
  let call := label.call
  let request := world.request call
  match s.pcs call, label.move with
  | .start, .stat outcome => some (s.setPc call (request.checked s.tiers outcome))
  | .entering, .enter =>
      match s.group request.key with
      | some leader => some (s.setPc call (.joined leader))
      | none =>
          request.flight.map (fun flight =>
            { s.setPc call (.flying flight) with
              group := Function.update s.group request.key (some call) })
  | .flying flight, .flight event =>
      (flight.step world.limit request s.tiers event).map (fun next =>
        { s.setPc call (.flying next.2) with tiers := next.1 })
  | .flying flight, .leave =>
      flight.result.map (fun err =>
        { s.setPc call (request.landed err) with
          group := Function.update s.group request.key none
          results := Function.update s.results call (some err) })
  | .joined leader, .wake =>
      (s.results leader).map (fun err => s.setPc call (request.landed err))
  | .opening, .openFile outcome =>
      some (s.setPc call (.returned (request.opened s.tiers outcome)))
  | .asking, .ask outcome =>
      some (s.setPc call (.returned (request.asked s.tiers outcome)))
  | _, _ => none

/-- The store at its start: an empty local tier, and no call begun. -/
def State.new (world : World Call) : State Call :=
  { tiers := { files := fun _ => none, remote := world.held }
    group := fun _ => none
    results := fun _ => none
    pcs := fun call => (world.request call).begin }

/-- The store with every order and every outcome of the calls' steps. -/
def machine (world : World Call) : Machine (State Call) (Label Call) where
  initial s := s = State.new world
  step := step world

inductive Effect (world : World Call) (s : State Call) (call : Call) : Move → State Call → Prop
  | checked {outcome} (at_ : s.pcs call = .start)
    : Effect world s call (.stat outcome)
        (s.setPc call ((world.request call).checked s.tiers outcome))
  | joins {leader} (at_ : s.pcs call = .entering)
    (found : s.group (world.request call).key = some leader)
    : Effect world s call .enter (s.setPc call (.joined leader))
  | leads {flight} (at_ : s.pcs call = .entering)
    (free : s.group (world.request call).key = none)
    (begins : (world.request call).flight = some flight)
    : Effect world s call .enter
        { s.setPc call (.flying flight) with
          group := Function.update s.group (world.request call).key (some call) }
  | flies {flight event tiers flight'} (at_ : s.pcs call = .flying flight)
    (taken
      : flight.step world.limit (world.request call) s.tiers event = some (tiers, flight'))
    : Effect world s call (.flight event)
        { s.setPc call (.flying flight') with tiers }
  | leaves {flight err} (at_ : s.pcs call = .flying flight) (ended : flight.result = some err)
    : Effect world s call .leave
        { s.setPc call ((world.request call).landed err) with
          group := Function.update s.group (world.request call).key none
          results := Function.update s.results call (some err) }
  | wakes {leader err} (at_ : s.pcs call = .joined leader)
    (landed : s.results leader = some err)
    : Effect world s call .wake (s.setPc call ((world.request call).landed err))
  | opens {outcome} (at_ : s.pcs call = .opening)
    : Effect world s call (.openFile outcome)
        (s.setPc call (.returned ((world.request call).opened s.tiers outcome)))
  | asks {outcome} (at_ : s.pcs call = .asking)
    : Effect world s call (.ask outcome)
        (s.setPc call (.returned ((world.request call).asked s.tiers outcome)))

/-- Every step is one of these effects.
Witness: split the step function at the call's place and the kind of its move.
-/
theorem step_effect {world : World Call} {s s' : State Call} {label : Label Call}
    (taken : step world s label = some s')
    : Effect world s label.call label.move s' := by
  obtain ⟨call, move⟩ := label
  simp only [step] at taken
  split at taken
  next outcome at_ =>
    obtain rfl := Option.some.inj taken
    exact .checked at_
  next at_ =>
    split at taken
    next leader found =>
      obtain rfl := Option.some.inj taken
      exact .joins at_ found
    next free =>
      obtain ⟨flight, begins, rfl⟩ := Option.map_eq_some_iff.mp taken
      exact .leads at_ free begins
  next flight event at_ =>
    obtain ⟨⟨tiers, flight'⟩, flown, rfl⟩ := Option.map_eq_some_iff.mp taken
    exact .flies at_ flown
  next flight at_ =>
    obtain ⟨err, ended, rfl⟩ := Option.map_eq_some_iff.mp taken
    exact .leaves at_ ended
  next leader at_ =>
    obtain ⟨err, landed, rfl⟩ := Option.map_eq_some_iff.mp taken
    exact .wakes at_ landed
  next outcome at_ =>
    obtain rfl := Option.some.inj taken
    exact .opens at_
  next outcome at_ =>
    obtain rfl := Option.some.inj taken
    exact .asks at_
  next => cases taken

end Steps

end GoREgo.Proxy
