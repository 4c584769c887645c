import GoREgo.Lib.Machine
import GoREgo.Lib.Maps
import GoREgo.Storage.Local

/-! The action cache of `ProxyStore`: `GetActionResult` fills the local tier from the remote
one and `UpdateActionResult` writes the remote tier before the local one. The two run under
different keys of the singleflight group, so a fill and an update may overlap.
-/

namespace GoREgo.ActionCache

open Lib LocalStore

inductive Request
  | get (digest : Digest)
  | update (digest : Digest) (result : ActionResult)
deriving DecidableEq, Repr

def Request.digest : Request → Digest
  | .get digest => digest
  | .update digest _ => digest

/-- The keys of the singleflight group: `"ac:" + hash` for fetches and
`"ac:update:" + hash` for updates. A hash is made of hex digits, so the two never meet.
-/
inductive Key
  | get (hash : String)
  | update (hash : String)
deriving DecidableEq, Repr

def Request.key : Request → Key
  | .get digest => .get digest.hash
  | .update digest _ => .update digest.hash

/-- The value and the error that a function run by the group returns. -/
abbrev Value := Except GoError (Option ActionResult)

/-- Where a call is: before its local read, before `group.Do`, in the function it runs under
the group (before the remote read, before the local write of a fetched result, before the
remote write, before the local write of an update, at its end), waiting for another call's
function, or returned.
-/
inductive Pc (Call : Type)
  | start
  | entering
  | asking
  | filling (result : ActionResult)
  | pushing (result : ActionResult)
  | storing (result : ActionResult)
  | landed (value : Value)
  | joined (leader : Call)
  | returned (value : Value)

def Pc.leads {Call : Type} : Pc Call → Bool
  | .asking | .filling _ | .pushing _ | .storing _ | .landed _ => true
  | _ => false

def Pc.updating {Call : Type} : Pc Call → Option ActionResult
  | .pushing result => some result
  | .storing result => some result
  | _ => none

/-- The calls that clients make, and what the two tiers hold before them. Calls of one hash
name one digest, and what the local tier holds came from the remote one.
-/
structure World (Call : Type) where
  request : Call → Request
  cached : String → Option ActionResult
  held : Digest → Option ActionResult
  sized : ∀ a b, (request a).digest.hash = (request b).digest.hash
    → (request a).digest = (request b).digest
  coherent : ∀ call result, cached (request call).digest.hash = some result
    → held (request call).digest = some result

def World.digest {Call : Type} (world : World Call) (call : Call) : Digest :=
  (world.request call).digest

/-- The two tiers, the group and the calls. The local tier is a file for each hash; a
finished function leaves its value for the calls that joined it.
-/
structure State (Call : Type) where
  files : String → Option ActionResult
  remote : Digest → Option ActionResult
  group : Key → Option Call
  results : Call → Option Value
  pcs : Call → Pc Call

/-- The next step of one call, with how the store call in it ends. -/
structure Label (Call : Type) where
  call : Call
  outcome : Outcome

/-- Where a call begins: an update has no local check of its own. -/
def Request.begin {Call : Type} : Request → Pc Call
  | .get _ => .start
  | .update _ _ => .entering

def Request.first {Call : Type} : Request → Pc Call
  | .get _ => .asking
  | .update _ result => .pushing result

/-- Whether a call at a place is not in flight: it has not begun or it has returned. -/
def Request.idle {Call : Type} : Request → Pc Call → Bool
  | _, .start => true
  | .update _ _, .entering => true
  | _, .returned _ => true
  | _, _ => false

def State.idle {Call : Type} (world : World Call) (s : State Call) : Prop :=
  ∀ call, (world.request call).idle (s.pcs call) = true

section Steps

variable {Call : Type}

def notFound : GoError := .status .notFound "action result not found"

def State.checked (s : State Call) (digest : Digest) : Outcome → Pc Call
  | .fail _ => .entering
  | .ok =>
      match s.files digest.hash with
      | some result => .returned (.ok (some result))
      | none => .entering

def State.asked (s : State Call) (digest : Digest) : Outcome → Pc Call
  | .fail err => .landed (.error err)
  | .ok =>
      match s.remote digest with
      | some result => .filling result
      | none => .landed (.error notFound)

/-- A write of the local tier replaces the file of the hash in one rename. -/
def State.write (s : State Call) (digest : Digest) (result : ActionResult)
    : Outcome → State Call
  | .ok => { s with files := Function.update s.files digest.hash (some result) }
  | .fail _ => s

def State.push (s : State Call) (digest : Digest) (result : ActionResult)
    : Outcome → State Call
  | .ok => { s with remote := Function.update s.remote digest (some result) }
  | .fail _ => s

theorem State.write_calls (s : State Call) (digest : Digest) (result : ActionResult)
    (outcome : Outcome)
    : (s.write digest result outcome).pcs = s.pcs
      ∧ (s.write digest result outcome).group = s.group := by
  cases outcome <;> exact ⟨rfl, rfl⟩

theorem State.push_calls (s : State Call) (digest : Digest) (result : ActionResult)
    (outcome : Outcome)
    : (s.push digest result outcome).pcs = s.pcs
      ∧ (s.push digest result outcome).group = s.group := by
  cases outcome <;> exact ⟨rfl, rfl⟩

def pushed (result : ActionResult) : Outcome → Pc Call
  | .ok => .storing result
  | .fail err => .landed (.error err)

def stored : Outcome → Pc Call
  | .ok => .landed (.ok none)
  | .fail err => .landed (.error err)

variable [DecidableEq Call]

def State.setPc (s : State Call) (call : Call) (pc : Pc Call) : State Call :=
  { s with pcs := Function.update s.pcs call pc }

/-- The next step of one call. The fill of a fetched result ignores the error of the local
write.
-/
def step (world : World Call) (s : State Call) (label : Label Call) : Option (State Call) :=
  let call := label.call
  let digest := world.digest call
  let key := (world.request call).key
  match s.pcs call with
  | .start => some (s.setPc call (s.checked digest label.outcome))
  | .entering =>
      match s.group key with
      | some leader => some (s.setPc call (.joined leader))
      | none =>
          some { s.setPc call (world.request call).first with
            group := Function.update s.group key (some call) }
  | .asking => some (s.setPc call (s.asked digest label.outcome))
  | .filling result =>
      some ((s.write digest result label.outcome).setPc call (.landed (.ok (some result))))
  | .pushing result =>
      some ((s.push digest result label.outcome).setPc call (pushed result label.outcome))
  | .storing result =>
      some ((s.write digest result label.outcome).setPc call (stored label.outcome))
  | .landed value =>
      some { s.setPc call (.returned value) with
        group := Function.update s.group key none
        results := Function.update s.results call (some value) }
  | .joined leader => (s.results leader).map (fun value => s.setPc call (.returned value))
  | .returned _ => none

def State.new (world : World Call) : State Call :=
  { files := world.cached
    remote := world.held
    group := fun _ => none
    results := fun _ => none
    pcs := fun call => (world.request call).begin }

def machine (world : World Call) : Machine (State Call) (Label Call) where
  initial s := s = State.new world
  step := step world

inductive Effect (world : World Call) (s : State Call) (call : Call) (outcome : Outcome)
    : State Call → Prop
  | reads (at_ : s.pcs call = .start)
    : Effect world s call outcome (s.setPc call (s.checked (world.digest call) outcome))
  | joins {leader} (at_ : s.pcs call = .entering)
    (found : s.group (world.request call).key = some leader)
    : Effect world s call outcome (s.setPc call (.joined leader))
  | leads (at_ : s.pcs call = .entering) (free : s.group (world.request call).key = none)
    : Effect world s call outcome
        { s.setPc call (world.request call).first with
          group := Function.update s.group (world.request call).key (some call) }
  | asks (at_ : s.pcs call = .asking)
    : Effect world s call outcome (s.setPc call (s.asked (world.digest call) outcome))
  | fills {result} (at_ : s.pcs call = .filling result)
    : Effect world s call outcome
        ((s.write (world.digest call) result outcome).setPc call (.landed (.ok (some result))))
  | pushes {result} (at_ : s.pcs call = .pushing result)
    : Effect world s call outcome
        ((s.push (world.digest call) result outcome).setPc call (pushed result outcome))
  | stores {result} (at_ : s.pcs call = .storing result)
    : Effect world s call outcome
        ((s.write (world.digest call) result outcome).setPc call (stored outcome))
  | leaves {value} (at_ : s.pcs call = .landed value)
    : Effect world s call outcome
        { s.setPc call (.returned value) with
          group := Function.update s.group (world.request call).key none
          results := Function.update s.results call (some value) }
  | wakes {leader value} (at_ : s.pcs call = .joined leader)
    (landed : s.results leader = some value)
    : Effect world s call outcome (s.setPc call (.returned value))

variable {world : World Call} {s s' : State Call} {hash : String} {result : ActionResult}
variable {call : Call} {pc : Pc Call}

theorem step_effect {label : Label Call} (taken : step world s label = some s')
    : Effect world s label.call label.outcome s' := by
  obtain ⟨call, outcome⟩ := label
  simp only [step] at taken
  split at taken
  next at_ =>
    obtain rfl := Option.some.inj taken
    exact .reads at_
  next at_ =>
    split at taken
    next leader found =>
      obtain rfl := Option.some.inj taken
      exact .joins at_ found
    next free =>
      obtain rfl := Option.some.inj taken
      exact .leads at_ free
  next at_ =>
    obtain rfl := Option.some.inj taken
    exact .asks at_
  next result at_ =>
    obtain rfl := Option.some.inj taken
    exact .fills at_
  next result at_ =>
    obtain rfl := Option.some.inj taken
    exact .pushes at_
  next result at_ =>
    obtain rfl := Option.some.inj taken
    exact .stores at_
  next value at_ =>
    obtain rfl := Option.some.inj taken
    exact .leaves at_
  next leader at_ =>
    obtain ⟨value, landed, rfl⟩ := Option.map_eq_some_iff.mp taken
    exact .wakes at_ landed
  next => cases taken

def State.updating (s : State Call) (hash : String) : Bool :=
  match s.group (.update hash) with
  | some leader => (s.pcs leader).updating.isSome
  | none => false

omit [DecidableEq Call] in
theorem State.updating_eq_true (running : s.updating hash = true)
    : ∃ leader result, s.group (.update hash) = some leader
      ∧ (s.pcs leader).updating = some result := by
  unfold State.updating at running
  split at running
  next leader found =>
    obtain ⟨result, pending⟩ := Option.isSome_iff_exists.mp running
    exact ⟨leader, result, found, pending⟩
  next => cases running

omit [DecidableEq Call] in
theorem State.updating_of_leader {leader : Call} (found : s.group (.update hash) = some leader)
    (pending : (s.pcs leader).updating = some result)
    : s.updating hash = true := by
  simp only [State.updating, found, pending, Option.isSome_some]

/-- What the group guarantees: a key is held by a call that entered under it, a call that
runs a function holds its key, and one that has still to write an update was called with it.
-/
structure Grouped (world : World Call) (s : State Call) : Prop where
  keyed : ∀ key leader, s.group key = some leader → (world.request leader).key = key
  leads
    : ∀ call, (s.pcs call).leads = true → s.group (world.request call).key = some call
  named
    : ∀ call result, (s.pcs call).updating = some result
        → world.request call = .update (world.digest call) result

omit [DecidableEq Call] in
theorem Grouped.holds_update (grouped : Grouped world s)
    (pending : (s.pcs call).updating = some result)
    : s.group (.update (world.digest call).hash) = some call := by
  have leads : (s.pcs call).leads = true := by
    revert pending
    cases s.pcs call <;> simp [Pc.updating, Pc.leads]
  have holds := grouped.leads call leads
  rwa [grouped.named call result pending] at holds

omit [DecidableEq Call] in
theorem State.asked_updating (s : State Call) (digest : Digest) (outcome : Outcome)
    : (s.asked digest outcome).updating = none := by
  unfold State.asked
  split
  · rfl
  · split <;> rfl

omit [DecidableEq Call] in
theorem State.checked_outside (s : State Call) (digest : Digest) (outcome : Outcome)
    : (s.checked digest outcome).leads = false
      ∧ (s.checked digest outcome).updating = none := by
  unfold State.checked
  split
  · exact ⟨rfl, rfl⟩
  · split <;> exact ⟨rfl, rfl⟩

theorem Grouped.moves (grouped : Grouped world s) (pcs : s'.pcs = Function.update s.pcs call pc)
    (group : s'.group = s.group) (led : pc.leads = true → (s.pcs call).leads = true)
    (pending : ∀ result, pc.updating = some result → (s.pcs call).updating = some result)
    : Grouped world s' where
  keyed key leader held := grouped.keyed key leader (group ▸ held)
  leads other running := by
    rw [pcs] at running
    rw [group]
    rcases update_cases Pc.leads running with ⟨rfl, new⟩ | ⟨_, old⟩
    · exact grouped.leads other (led new)
    · exact grouped.leads other old
  named other result running := by
    rw [pcs] at running
    rcases update_cases Pc.updating running with ⟨rfl, new⟩ | ⟨_, old⟩
    · exact grouped.named other result (pending result new)
    · exact grouped.named other result old

theorem Grouped.effect {outcome : Outcome} (grouped : Grouped world s)
    (effect : Effect world s call outcome s')
    : Grouped world s' := by
  cases effect with
  | reads at_ =>
      obtain ⟨out, idle⟩ := s.checked_outside (world.digest call) outcome
      exact grouped.moves rfl rfl (by simp [out]) (by simp [idle])
  | joins at_ found => exact grouped.moves rfl rfl nofun nofun
  | leads at_ free =>
      refine ⟨?_, ?_, ?_⟩
      · intro key leader held
        rcases update_cases id held with ⟨rfl, new⟩ | ⟨_, old⟩
        · rw [Option.some.inj new]
        · exact grouped.keyed key leader old
      · intro other running
        rcases update_cases Pc.leads running with ⟨rfl, _⟩ | ⟨_, old⟩
        · exact Function.update_self ..
        · have held := grouped.leads other old
          refine (Function.update_of_ne ?_ ..).trans held
          intro same
          rw [same, free] at held
          cases held
      · intro other result running
        rcases update_cases Pc.updating running with ⟨rfl, new⟩ | ⟨_, old⟩
        · simp only [World.digest]
          revert new
          cases world.request other <;> simp [Request.first, Pc.updating, Request.digest]
        · exact grouped.named other result old
  | asks at_ =>
      refine grouped.moves rfl rfl (fun _ => by rw [at_]; rfl) (fun result new => ?_)
      rw [s.asked_updating] at new
      cases new
  | fills at_ =>
      obtain ⟨pcs, group⟩ := s.write_calls (world.digest call) _ outcome
      exact grouped.moves (congrArg (Function.update · call _) pcs) group
        (fun _ => by rw [at_]; rfl) (fun _ new => nomatch new)
  | pushes at_ =>
      obtain ⟨pcs, group⟩ := s.push_calls (world.digest call) _ outcome
      refine grouped.moves (congrArg (Function.update · call _) pcs) group
        (fun _ => by rw [at_]; rfl) ?_
      rw [at_]
      cases outcome with
      | ok => exact fun result new => new
      | fail err => exact fun _ new => nomatch new
  | stores at_ =>
      obtain ⟨pcs, group⟩ := s.write_calls (world.digest call) _ outcome
      refine grouped.moves (congrArg (Function.update · call _) pcs) group
        (fun _ => by rw [at_]; rfl) ?_
      cases outcome <;> exact fun _ new => nomatch new
  | leaves at_ =>
      have own : s.group (world.request call).key = some call :=
        grouped.leads call (by rw [at_]; rfl)
      refine ⟨?_, ?_, ?_⟩
      · intro key leader held
        rcases update_cases id held with ⟨_, new⟩ | ⟨_, old⟩
        · cases new
        · exact grouped.keyed key leader old
      · intro other running
        rcases update_cases Pc.leads running with ⟨_, new⟩ | ⟨apart, old⟩
        · cases new
        · have held := grouped.leads other old
          refine (Function.update_of_ne ?_ ..).trans held
          intro same
          rw [same, own] at held
          exact apart (Option.some.inj held).symm
      · intro other result running
        rcases update_cases Pc.updating running with ⟨_, new⟩ | ⟨_, old⟩
        · cases new
        · exact grouped.named other result old
  | wakes at_ landed => exact grouped.moves rfl rfl nofun nofun

theorem grouped_inductive (world : World Call)
    : (machine world).Inductive Machine.anyStep (Grouped world) where
  start s initial := by
    obtain rfl := initial
    refine ⟨nofun, ?_, ?_⟩
    · intro call running
      revert running
      simp only [State.new]
      cases world.request call <;> exact nofun
    · intro call result running
      revert running
      simp only [State.new]
      cases world.request call <;> exact nofun
  keeps _ _ _ grouped _ taken := grouped.effect (step_effect taken)

/-- Whether the next step of a call is not a stale fill: what a fetch writes to the local
tier is still the remote entry, or an update runs that will write the local tier after it.
-/
def State.fresh (world : World Call) (s : State Call) (call : Call) : Bool :=
  match s.pcs call with
  | .filling result =>
      decide (s.remote (world.digest call) = some result)
        || s.updating (world.digest call).hash
  | _ => true

def freshStep (world : World Call) (s : State Call) (label : Label Call) : Prop :=
  label.outcome = .ok ∧ s.fresh world label.call = true

instance (world : World Call) (s : State Call) (label : Label Call)
    : Decidable (freshStep world s label) :=
  inferInstanceAs (Decidable (_ ∧ _))

/-- While no update is between its remote and its local write, a local entry is the remote
one; an update in between has written the remote entry.
-/
structure Coherent (world : World Call) (s : State Call) : Prop where
  pushed
    : ∀ call result, s.pcs call = .storing result
        → s.remote (world.digest call) = some result
  agree
    : ∀ call result, s.updating (world.digest call).hash = false
        → s.files (world.digest call).hash = some result
        → s.remote (world.digest call) = some result

theorem State.updating_kept (settled : s'.updating hash = false)
    (pcs : s'.pcs = Function.update s.pcs call pc) (group
      : ∀ leader, s.group (.update hash) = some leader → (s.pcs leader).updating.isSome = true
          → s'.group (.update hash) = some leader) (still
      : s.group (.update hash) = some call → (s.pcs call).updating.isSome = true
          → pc.updating.isSome = true)
    : s.updating hash = false := by
  by_contra running
  obtain ⟨leader, result, held, pending⟩ :=
    State.updating_eq_true (Bool.of_not_eq_false running)
  have found := group leader held (by rw [pending]; rfl)
  have moved : (s'.pcs leader).updating.isSome = true := by
    rw [pcs]
    by_cases same : leader = call
    · subst same
      rw [Function.update_self]
      exact still held (by rw [pending]; rfl)
    · rw [Function.update_of_ne same, pending]
      rfl
  obtain ⟨later, pending'⟩ := Option.isSome_iff_exists.mp moved
  rw [State.updating_of_leader found pending'] at settled
  cases settled

theorem Coherent.quiet (coherent : Coherent world s) (pcs : s'.pcs = Function.update s.pcs call pc)
    (files : s'.files = s.files) (remote : s'.remote = s.remote)
    (fresh : ∀ result, pc ≠ .storing result)
    (settled : ∀ hash, s'.updating hash = false → s.updating hash = false)
    : Coherent world s' where
  pushed other result at_ := by
    rw [pcs] at at_
    rw [remote]
    rcases update_cases id at_ with ⟨_, new⟩ | ⟨_, old⟩
    · exact absurd new (fresh result)
    · exact coherent.pushed other result old
  agree other result idle found := by
    rw [files] at found
    rw [remote]
    exact coherent.agree other result (settled _ idle) found

theorem Coherent.writes (coherent : Coherent world s) (remote
      : s.remote (world.digest call) = some result
        ∨ s.updating (world.digest call).hash = true ∧ (s.pcs call).updating = none)
    (apart : ∀ result, pc ≠ .storing result) (settled
      : ∀ hash, hash ≠ (world.digest call).hash ∨ (s.pcs call).updating = none
          → ((s.write (world.digest call) result .ok).setPc call pc).updating hash = false
          → s.updating hash = false)
    : Coherent world ((s.write (world.digest call) result .ok).setPc call pc) where
  pushed other stored at_ := by
    rcases update_cases id at_ with ⟨_, new⟩ | ⟨_, old⟩
    · exact absurd new (apart stored)
    · exact coherent.pushed other stored old
  agree other stored idle found := by
    rcases update_cases id found with ⟨same, new⟩ | ⟨differ, old⟩
    · -- The file written is the one of `other`, so both calls name one digest.
      have digest : world.digest other = world.digest call := world.sized _ _ same
      obtain rfl : result = stored := Option.some.inj new
      rw [digest] at idle ⊢
      rcases remote with current | ⟨running, outside⟩
      · exact current
      · rw [settled _ (Or.inr outside) idle] at running
        cases running
    · exact coherent.agree other stored (settled _ (Or.inl differ) idle) old

theorem Coherent.effect (grouped : Grouped world s) (coherent : Coherent world s)
    (fresh : s.fresh world call = true) (effect : Effect world s call .ok s')
    : Coherent world s' := by
  cases effect with
  | reads at_ =>
      obtain ⟨out, _⟩ := s.checked_outside (world.digest call) .ok
      refine coherent.quiet rfl rfl rfl (fun result same => ?_) (fun hash idle =>
        State.updating_kept idle rfl (fun _ held _ => held) (fun _ old => ?_))
      · rw [same] at out
        cases out
      · rw [at_] at old
        cases old
  | joins at_ found =>
      refine coherent.quiet rfl rfl rfl (fun _ => nofun) (fun hash idle =>
        State.updating_kept idle rfl (fun _ held _ => held) (fun _ old => ?_))
      rw [at_] at old
      cases old
  | leads at_ free =>
      refine coherent.quiet rfl rfl rfl (fun result same => ?_) (fun hash idle =>
        State.updating_kept idle rfl (fun leader held _ => ?_) (fun _ old => ?_))
      · revert same
        cases world.request call <;> exact nofun
      · refine (Function.update_of_ne (fun same => ?_) ..).trans held
        rw [same, free] at held
        cases held
      · rw [at_] at old
        cases old
  | asks at_ =>
      refine coherent.quiet rfl rfl rfl (fun result same => ?_) (fun hash idle =>
        State.updating_kept idle rfl (fun _ held _ => held) (fun _ old => ?_))
      · have none := s.asked_updating (world.digest call) .ok
        rw [same] at none
        cases none
      · rw [at_] at old
        cases old
  | fills at_ =>
      refine coherent.writes ?_ (fun _ => nofun) (fun hash _ idle =>
        State.updating_kept idle rfl (fun _ held _ => held) (fun _ old => ?_))
      · simp only [State.fresh, at_, Bool.or_eq_true, decide_eq_true_eq] at fresh
        exact fresh.imp_right (fun running => ⟨running, by rw [at_]; rfl⟩)
      · rw [at_] at old
        cases old
  | @pushes result at_ =>
      have pending : (s.pcs call).updating = some result := by rw [at_]; rfl
      have held := grouped.holds_update pending
      refine ⟨?_, ?_⟩
      · intro other stored new
        rcases update_cases id new with ⟨rfl, moved⟩ | ⟨apart, old⟩
        · obtain rfl := Pc.storing.inj moved
          exact Function.update_self ..
        · refine (Function.update_of_ne (fun same => apart ?_) ..).trans
            (coherent.pushed other stored old)
          have pending' : (s.pcs other).updating = some stored := congrArg Pc.updating old
          have held' := grouped.holds_update pending'
          rw [same, held] at held'
          exact (Option.some.inj held').symm
      · intro other stored idle found
        have differ : world.digest other ≠ world.digest call := by
          intro same
          have moved := Function.update_self call (Pc.storing result) s.pcs
          have running := State.updating_of_leader
            (s := (s.push (world.digest call) result .ok).setPc call (.storing result))
            held (congrArg Pc.updating moved)
          rw [same] at idle
          exact absurd (running.symm.trans idle) nofun
        refine (Function.update_of_ne differ ..).trans
          (coherent.agree other stored (State.updating_kept idle rfl (fun _ held _ => held)
            (fun _ _ => rfl)) found)
  | stores at_ =>
      refine coherent.writes (Or.inl (coherent.pushed call _ at_)) (fun _ => nofun)
        (fun hash side idle =>
          State.updating_kept idle rfl (fun _ held _ => held) (fun held old => ?_))
      rcases side with apart | outside
      · have key := grouped.keyed _ _ held
        obtain ⟨result, pending⟩ := Option.isSome_iff_exists.mp old
        rw [grouped.named call result pending] at key
        exact absurd (Key.update.inj key).symm apart
      · rw [outside] at old
        cases old
  | leaves at_ =>
      refine coherent.quiet rfl rfl rfl (fun _ => nofun) (fun hash idle =>
        State.updating_kept idle rfl (fun leader held pending => ?_) (fun _ old => ?_))
      · refine (Function.update_of_ne (fun same => ?_) ..).trans held
        have own := grouped.leads call (by rw [at_]; rfl)
        rw [same, own] at held
        obtain rfl := Option.some.inj held
        rw [at_] at pending
        cases pending
      · rw [at_] at old
        cases old
  | wakes at_ landed =>
      refine coherent.quiet rfl rfl rfl (fun _ => nofun) (fun hash idle =>
        State.updating_kept idle rfl (fun _ held _ => held) (fun _ old => ?_))
      rw [at_] at old
      cases old

theorem coherent_inductive (world : World Call)
    : (machine world).Inductive (freshStep world)
        (fun s => Grouped world s ∧ Coherent world s) := by
  refine (grouped_inductive world).restrict.strengthen ?_ ?_
  · rintro s rfl
    refine ⟨fun call result at_ => ?_, fun call result _ found =>
      world.coherent call result found⟩
    revert at_
    simp only [State.new]
    cases world.request call <;> exact nofun
  · intro s label s' grouped coherent allowed taken
    have effect := step_effect taken
    rw [allowed.1] at effect
    exact coherent.effect grouped allowed.2 effect

omit [DecidableEq Call] in
theorem State.idle.not_updating (idle : s.idle world) (hash : String)
    : s.updating hash = false := by
  by_contra running
  obtain ⟨leader, result, _, pending⟩ :=
    State.updating_eq_true (Bool.of_not_eq_false running)
  have quiet := idle leader
  revert pending quiet
  cases s.pcs leader <;> simp [Pc.updating, Request.idle]

/-- A stale fill that nothing follows but the end of its own call leaves a local entry that
is not the remote one.
-/
theorem stale_fill_stays (stale : s.fresh world call = false)
    (alone : ∀ other, other ≠ call → (world.request other).idle (s.pcs other) = true)
    : ∃ s' result, (machine world).Run (fun _ label => label.outcome = .ok) s
          [⟨call, .ok⟩, ⟨call, .ok⟩] s'
        ∧ s'.idle world ∧ s'.files (world.digest call).hash = some result
        ∧ s'.remote (world.digest call) ≠ some result := by
  unfold State.fresh at stale
  split at stale
  next result at_ =>
    simp only [Bool.or_eq_false_iff, decide_eq_false_iff_not] at stale
    let mid := (s.write (world.digest call) result .ok).setPc call (.landed (.ok (some result)))
    let last : State Call :=
      { mid.setPc call (.returned (.ok (some result))) with
        group := Function.update mid.group (world.request call).key none
        results := Function.update mid.results call (some (.ok (some result))) }
    have filled : (machine world).step s ⟨call, .ok⟩ = some mid := by
      simp only [machine, step, at_, mid]
    have landed : mid.pcs call = .landed (.ok (some result)) := Function.update_self ..
    have left : (machine world).step mid ⟨call, .ok⟩ = some last := by
      simp only [machine, step, landed, last]
    refine ⟨last, result, .cons rfl filled (.cons rfl left (.nil _)), fun other => ?_,
      Function.update_self .., stale.1⟩
    by_cases same : other = call
    · subst same
      simp [last, State.setPc, Request.idle]
    · simpa only [last, mid, State.setPc, State.write, Function.update_of_ne same]
        using alone other same
  next => cases stale

/-- In every run without failures and stale fills, a local entry is the remote entry whenever
no call is in flight; and a stale fill breaks this when it comes last.
-/
theorem idle_local_entry_eq_remote (world : World Call) {s : State Call}
    (reach : (machine world).Reachable (freshStep world) s)
    : (s.idle world → ∀ call result, s.files (world.digest call).hash = some result
          → s.remote (world.digest call) = some result)
      ∧ ∀ call, s.fresh world call = false
          → (∀ other, other ≠ call → (world.request other).idle (s.pcs other) = true)
          → ∃ s' result, (machine world).Run (fun _ label => label.outcome = .ok) s
                [⟨call, .ok⟩, ⟨call, .ok⟩] s'
              ∧ s'.idle world ∧ s'.files (world.digest call).hash = some result
              ∧ s'.remote (world.digest call) ≠ some result := by
  obtain ⟨_, coherent⟩ := (coherent_inductive world).reachable reach
  refine ⟨fun idle call result found => ?_, fun call stale alone =>
    stale_fill_stays stale alone⟩
  exact coherent.agree call result (idle.not_updating _) found

end Steps

/-- The result of an action that ends with an exit code and writes nothing. -/
def exited (exitCode : Int) : ActionResult :=
  { exitCode, stdoutDigest := none, stderrDigest := none, outputFiles := []
    outputDirectories := [] }

def fetchAndUpdate : World Bool where
  request updates :=
    if updates then .update ⟨"abcd", 2⟩ (exited 0) else .get ⟨"abcd", 2⟩
  cached _ := none
  held digest := if digest = ⟨"abcd", 2⟩ then some (exited 1) else none
  sized := by decide
  coherent := nofun

/-- The update ends before the fetch begins, and the fetch returns the updated entry. -/
theorem fetch_after_update_coherent
    : ∃ s, (machine fetchAndUpdate).Reachable (freshStep fetchAndUpdate) s
      ∧ s.idle fetchAndUpdate ∧ s.files "abcd" = some (exited 0)
      ∧ s.remote ⟨"abcd", 2⟩ = some (exited 0) := by
  let labels : List (Label Bool) := [⟨true, .ok⟩, ⟨true, .ok⟩, ⟨true, .ok⟩, ⟨true, .ok⟩,
    ⟨false, .ok⟩]
  obtain ⟨s, run, tested⟩ := Machine.exists_run_of_execIf (machine fetchAndUpdate)
    (freshStep fetchAndUpdate) (State.new fetchAndUpdate) labels
    (fun s => (∀ call, (fetchAndUpdate.request call).idle (s.pcs call) = true)
      ∧ s.files "abcd" = some (exited 0)) (by decide)
  obtain ⟨idle, found⟩ := of_decide_eq_true tested
  have reach : (machine fetchAndUpdate).Reachable (freshStep fetchAndUpdate) s :=
    ⟨_, labels, rfl, run⟩
  exact ⟨s, reach, idle, found,
    (idle_local_entry_eq_remote fetchAndUpdate reach).1 idle true (exited 0) found⟩

/-- The fetch reads the old entry from the remote tier, the update writes both tiers, and
then the fetch writes the old entry to the local tier, where it stays.
-/
theorem fetch_overwrites_update
    : ∃ s, (machine fetchAndUpdate).Reachable (fun _ label => label.outcome = .ok) s
      ∧ s.idle fetchAndUpdate ∧ s.files "abcd" = some (exited 1)
      ∧ s.remote ⟨"abcd", 2⟩ = some (exited 0) := by
  let labels : List (Label Bool) := [⟨false, .ok⟩, ⟨false, .ok⟩, ⟨false, .ok⟩, ⟨true, .ok⟩,
    ⟨true, .ok⟩, ⟨true, .ok⟩, ⟨true, .ok⟩, ⟨false, .ok⟩, ⟨false, .ok⟩]
  obtain ⟨s, run, tested⟩ := Machine.exists_run_of_execIf (machine fetchAndUpdate)
    (fun _ label => label.outcome = .ok) (State.new fetchAndUpdate) labels
    (fun s => (∀ call, (fetchAndUpdate.request call).idle (s.pcs call) = true)
      ∧ s.files "abcd" = some (exited 1) ∧ s.remote ⟨"abcd", 2⟩ = some (exited 0)) (by decide)
  obtain ⟨idle, found, pushed⟩ := of_decide_eq_true tested
  exact ⟨s, ⟨_, labels, rfl, run⟩, idle, found, pushed⟩

end GoREgo.ActionCache
