import GoREgo.Cluster.Hops
import GoREgo.Cluster.Routing
import GoREgo.Execution.StreamNames
import Mathlib.Data.List.Infix
import Mathlib.Data.Set.Card

/-! A client's `Execute` makes at most one hop: at most two nodes see the request, one of them
calls `Enqueue`, and the client reads one operation's stream, its own node's or the peer's.
-/

namespace GoREgo.Cluster

open Scheduler Execution

namespace Forwarding

variable {N C W K : Type} {net : Network N} {s s' : Forwarding N C W K}
  {event : Event N C W K}

section Stream

variable {c : C} {call : ExecuteCall N C}

theorem stream_congr (calls : s'.calls c = s.calls c) (services : s'.services = s.services)
    : s'.stream c = s.stream c := by
  simp only [stream, calls, services]

theorem stream_fresh (fresh : s.calls c = none) : s.stream c = [] := by
  simp only [stream, fresh]

theorem stream_served (here : s.calls c = some call) (served : call.pc.served = true)
    : s.stream c = ((s.services call.node).handlers (.inl c)).sent := by
  simp only [stream, here]
  cases pc : call.pc <;> simp only [pc, CallPc.served, reduceCtorEq] at served ⊢

theorem stream_unserved (here : s.calls c = some call) (unserved : call.pc.served = false)
    : s.stream c = call.proxied := by
  simp only [stream, here]
  cases pc : call.pc <;> simp only [pc, CallPc.served, reduceCtorEq] at unserved ⊢

theorem stream_prefix_setCall [DecidableEq C] {d : C} (unserved : call.pc.served = false)
    (grows : s.stream d <+: call.proxied) (c : C)
    : s.stream c <+: (s.setCall d call).stream c := by
  by_cases same : c = d
  · subst same
    have here : (s.setCall c call).calls c = some call := Function.update_self ..
    rwa [stream_unserved here unserved]
  · have there : (s.setCall d call).calls c = s.calls c := Function.update_of_ne same ..
    rw [stream_congr there rfl]

end Stream

def processedBy (s : Forwarding N C W K) (c : C) : Set N :=
  { n | ∃ d call, s.calls d = some call ∧ call.origin = c ∧ call.node = n }

/-- At most two nodes process a client's request: that of the client's call, and that of the
call it made.
-/
theorem processedBy_encard_le (hops : Hops net s.calls) (c : C)
    : (s.processedBy c).encard ≤ 2 := by
  let own : Set N := { n | ∃ call, s.calls c = some call ∧ call.node = n }
  let made : Set N :=
    { n | ∃ root d call, s.calls c = some root ∧ root.pc.peerCall? = some d
      ∧ s.calls d = some call ∧ call.node = n }
  have within : s.processedBy c ⊆ own ∪ made := by
    rintro n ⟨d, call, found, origin, here⟩
    rcases hops.of_origin found origin with rfl | ⟨root, there, linked⟩
    · exact .inl ⟨call, found, here⟩
    · exact .inr ⟨root, d, call, there, linked, found, here⟩
  have oneOwn : own.Subsingleton := by
    rintro m ⟨call, found, rfl⟩ n ⟨other, found', rfl⟩
    obtain rfl := Option.some.inj (found.symm.trans found')
    rfl
  have oneMade : made.Subsingleton := by
    rintro m ⟨root, d, call, there, linked, found, rfl⟩
      n ⟨root', d', other, there', linked', found', rfl⟩
    obtain rfl := Option.some.inj (there.symm.trans there')
    obtain rfl := Option.some.inj (linked.symm.trans linked')
    obtain rfl := Option.some.inj (found.symm.trans found')
    rfl
  calc (s.processedBy c).encard
    _ ≤ (own ∪ made).encard := Set.encard_le_encard within
    _ ≤ own.encard + made.encard := Set.encard_union_le own made
    _ ≤ 1 + 1 :=
        add_le_add (Set.encard_le_one_iff_subsingleton.mpr oneOwn)
          (Set.encard_le_one_iff_subsingleton.mpr oneMade)
    _ = 2 := one_add_one_eq_two

variable [DecidableEq C]

/-- The calls, anywhere in the cluster, that called `Enqueue` for a client's request. -/
def enqueuesFor (s : Forwarding N C W K) (c : C) : List C :=
  s.enqueued.filter (fun d => (s.calls d).any (fun call => call.origin = c))

/-- At most one `Enqueue` happens for a client's request. -/
theorem enqueuesFor_length_le (hops : Hops net s.calls) (placed : Placed s.calls s.enqueued)
    (c : C)
    : (s.enqueuesFor c).length ≤ 1 := by
  have member : ∀ d ∈ s.enqueuesFor c, ∃ call, s.calls d = some call ∧ call.origin = c
      ∧ call.pc.served = true := by
    intro d listed
    obtain ⟨enqueued, isFor⟩ := List.mem_filter.mp listed
    obtain ⟨call, found, served⟩ := (placed.listed d).mp enqueued
    rw [found] at isFor
    exact ⟨call, found, by simpa using isFor, served⟩
  have same : ∀ d ∈ s.enqueuesFor c, ∀ e ∈ s.enqueuesFor c, d = e := by
    intro d listed e listed'
    obtain ⟨first, found, origin, served⟩ := member d listed
    obtain ⟨second, found', origin', served'⟩ := member e listed'
    exact hops.served_unique found origin served found' origin' served'
  have once : (s.enqueuesFor c).Nodup := placed.once.filter _
  match listed : s.enqueuesFor c with
  | [] | [_] => simp
  | d :: e :: rest =>
      rw [listed] at once same
      have equal : d = e := same d (by simp) e (by simp)
      simp [equal] at once

variable [DecidableEq W] [DecidableEq K]

/-- Services are in states that they reach, a call proxies nothing before it is forwarded, and
then a part of the peer's stream from its start.
-/
structure Streams (s : Forwarding N C W K) : Prop where
  services : ∀ n, System.machine.Reachable Lib.Machine.anyStep (s.services n)
  quiet
    : ∀ {c call}, s.calls c = some call → call.pc.peerCall? = none → call.proxied = []
  proxied
    : ∀ {c call peerCall},
        s.calls c = some call
        → call.pc.peerCall? = some peerCall
        → call.proxied <+: s.stream peerCall

theorem Streams.carry (streams : s.Streams) (grows : ∀ c, s.stream c <+: s'.stream c)
    (services : ∀ n, System.machine.Reachable Lib.Machine.anyStep (s'.services n))
    (calls
      : ∀ c call, s'.calls c = some call →
          s.calls c = some call
          ∨ (call.pc.peerCall? = none → call.proxied = [])
            ∧ ∀ peerCall, call.pc.peerCall? = some peerCall →
                call.proxied <+: s.stream peerCall)
    : s'.Streams where
  services := services
  quiet found unlinked := by
    rcases calls _ _ found with old | ⟨quiet, -⟩
    · exact streams.quiet old unlinked
    · exact quiet unlinked
  proxied found linked := by
    refine List.IsPrefix.trans ?_ (grows _)
    rcases calls _ _ found with old | ⟨-, proxied⟩
    · exact streams.proxied old linked
    · exact proxied _ linked

theorem Streams.change (streams : s.Streams) (grows : ∀ c, s.stream c <+: s'.stream c)
    (services : ∀ n, System.machine.Reachable Lib.Machine.anyStep (s'.services n)) {c : C}
    {call : ExecuteCall N C} (calls : s'.calls = Function.update s.calls c (some call))
    (own
      : (call.pc.peerCall? = none → call.proxied = [])
        ∧ ∀ peerCall, call.pc.peerCall? = some peerCall → call.proxied <+: s.stream peerCall)
    : s'.Streams := by
  refine streams.carry grows services (fun other call' found => ?_)
  rw [calls] at found
  rcases Lib.update_cases id found with ⟨-, same⟩ | ⟨-, old⟩
  · cases same
    exact .inr own
  · exact .inl old

theorem one_name_unlinked (streams : s.Streams) {c : C} {call : ExecuteCall N C}
    (here : s.calls c = some call) (unlinked : call.pc.peerCall? = none)
    : ∃ name, ∀ op ∈ s.stream c, op.name = name := by
  cases served : call.pc.served with
  | true =>
      obtain ⟨-, keeps⟩ := System.keeps_inductive.reachable (streams.services call.node)
      obtain ⟨name, keeps⟩ := keeps (.inl c)
      rw [stream_served here served]
      exact ⟨name, keeps.sent⟩
  | false =>
      rw [stream_unserved here served, streams.quiet here unlinked]
      exact ⟨"", List.forall_mem_nil _⟩

theorem one_name (hops : Hops net s.calls) (streams : s.Streams) (c : C)
    : ∃ name, ∀ op ∈ s.stream c, op.name = name := by
  cases here : s.calls c with
  | none =>
      rw [stream_fresh here]
      exact ⟨"", List.forall_mem_nil _⟩
  | some call =>
      cases linked : call.pc.peerCall? with
      | none => exact one_name_unlinked streams here linked
      | some peerCall =>
          obtain ⟨made, there, header, -⟩ := hops.peer here linked
          have unlinked : made.pc.peerCall? = none := by
            by_contra linked'
            obtain ⟨further, linked'⟩ := Option.ne_none_iff_exists'.mp linked'
            have direct := hops.direct there (CallPc.forwards_of_peerCall? linked')
            exact nomatch direct.symm.trans header
          obtain ⟨name, names⟩ := one_name_unlinked streams there unlinked
          have unserved : call.pc.served = false := by
            cases pc : call.pc <;> simp [pc, CallPc.served, CallPc.peerCall?] at linked ⊢
          refine ⟨name, fun op member => names op ?_⟩
          rw [stream_unserved here unserved] at member
          exact (streams.proxied here linked).subset member

variable [DecidableEq N]

inductive Effect (net : Network N) (s : Forwarding N C W K) : Forwarding N C W K → Prop
  | opened {c n header request} (fresh : s.calls c = none)
    : Effect net s (s.setCall c (.new n header request c))
  | moved {c call pc} (here : s.calls c = some call) (before : call.pc.early = true)
    (after : pc.early = true)
    (direct : pc.forwards = true → call.header = none ∨ call.pc.forwards = true)
    (serves : ∀ request, pc.enqueues? = some request → call.Serves request)
    : Effect net s (s.setCall c { call with pc })
  | forwarded {c call peer peerCall peerNode} (here : s.calls c = some call)
    (pc : call.pc = .forwarding peer) (fresh : s.calls peerCall = none)
    : Effect net s
        ((s.setCall c { call with pc := .relaying peerCall }).setCall peerCall
          (.new peerNode (some (net.nodeID call.node)) call.request call.origin))
  | enqueued {c call request uuid now waiting service} (here : s.calls c = some call)
    (pc : call.pc = .enqueueing request)
    (taken
      : (s.services call.node).step (.enqueue (.inl c) request uuid now waiting)
          = some service)
    : Effect net s
        { s.setCall c { call with pc := .serving request } with
          services := Function.update s.services call.node service
          enqueued := c :: s.enqueued }
  | proxied {c call peerCall op} (here : s.calls c = some call)
    (pc : call.pc = .relaying peerCall)
    (next : (s.stream peerCall)[call.proxied.length]? = some op)
    : Effect net s (s.setCall c { call with proxied := call.proxied ++ [op] })
  | ended {c call peerCall outcome} (here : s.calls c = some call)
    (pc : call.pc = .relaying peerCall)
    : Effect net s (s.setCall c { call with pc := .relayed peerCall outcome })
  | gossiped {peers} : Effect net s { s with peers }
  | served {n label service} (taken : (s.services n).step label = some service)
    : Effect net s { s with services := Function.update s.services n service }

theorem Effect.executesLocally {c : C} {call : ExecuteCall N C} (here : s.calls c = some call)
    (before : call.pc.early = true)
    : Effect net s (s.setCall c { call with pc := call.executeLocally }) :=
  .moved here before rfl nofun (fun _ => call.serves_executeLocally)

theorem step_effect (taken : s.step net event = some s') : Effect net s s' := by
  cases event with
  | execute c n header request =>
      simp only [step] at taken
      split at taken
      next => cases taken
      next fresh =>
        obtain rfl := Option.some.inj taken
        exact .opened fresh
  | getActionResult c found =>
      obtain ⟨call, here, taken⟩ := Option.bind_eq_some_iff.mp taken
      split at taken
      next pc =>
        obtain rfl := Option.some.inj taken
        refine .moved here (by rw [pc]; rfl) ?_ ?_ (fun _ => call.serves_afterLookup)
        · unfold ExecuteCall.afterLookup
          split <;> rfl
        · unfold ExecuteCall.afterLookup
          split <;> exact nofun
      next => cases taken
  | selectBestPeer c order =>
      obtain ⟨call, here, taken⟩ := Option.bind_eq_some_iff.mp taken
      split at taken
      next pc =>
        have before : call.pc.early = true := by rw [pc]; rfl
        split at taken
        next peers direct table =>
          split at taken
          next =>
            split at taken
            next peer selected =>
              obtain rfl := Option.some.inj taken
              exact .moved here before rfl (fun _ => .inl direct) (fun _ => nofun)
            next =>
              obtain rfl := Option.some.inj taken
              exact .executesLocally here before
          next => cases taken
        next =>
          obtain rfl := Option.some.inj taken
          exact .executesLocally here before
      next => cases taken
  | getOrCreateConn c failure =>
      obtain ⟨call, here, taken⟩ := Option.bind_eq_some_iff.mp taken
      cases pc : call.pc <;> cases failure <;> simp only [pc, reduceCtorEq] at taken <;>
        obtain rfl := Option.some.inj taken
      · exact .moved here (by rw [pc]; rfl) rfl (fun _ => .inr (by rw [pc]; rfl))
          (fun _ => nofun)
      · exact .executesLocally here (by rw [pc]; rfl)
  | clientExecute c outcome =>
      obtain ⟨call, here, taken⟩ := Option.bind_eq_some_iff.mp taken
      cases pc : call.pc <;> cases outcome <;> simp only [pc, reduceCtorEq] at taken
      · obtain rfl := Option.some.inj taken
        exact .executesLocally here (by rw [pc]; rfl)
      · split at taken
        next peerNode dialled fresh =>
          obtain rfl := Option.some.inj taken
          exact .forwarded here pc fresh
        next => cases taken
  | enqueue c uuid now waiting =>
      obtain ⟨call, here, taken⟩ := Option.bind_eq_some_iff.mp taken
      split at taken
      next request pc =>
        obtain ⟨service, enqueued, taken⟩ := Option.bind_eq_some_iff.mp taken
        obtain rfl := Option.some.inj taken
        exact .enqueued here pc enqueued
      next => cases taken
  | proxy c sendError =>
      obtain ⟨call, here, taken⟩ := Option.bind_eq_some_iff.mp taken
      split at taken
      next peerCall pc =>
        obtain ⟨op, next, taken⟩ := Option.bind_eq_some_iff.mp taken
        cases sendError with
        | none =>
            obtain rfl := Option.some.inj taken
            exact .proxied here pc next
        | some err =>
            obtain rfl := Option.some.inj taken
            exact .ended here pc
      next => cases taken
  | recvEnd c outcome =>
      obtain ⟨call, here, taken⟩ := Option.bind_eq_some_iff.mp taken
      split at taken
      next peerCall pc =>
        split at taken
        next =>
          obtain rfl := Option.some.inj taken
          exact .ended here pc
        next => cases taken
      next => cases taken
  | gossip n peers =>
      simp only [step] at taken
      split at taken
      next => cases taken
      next =>
        obtain rfl := Option.some.inj taken
        exact .gossiped
  | service n label =>
      simp only [step] at taken
      split at taken
      next =>
        obtain ⟨service, stepped, rfl⟩ := Option.map_eq_some_iff.mp taken
        exact .served stepped
      next => cases taken

theorem hops_effect (hops : Hops net s.calls) (effect : Effect net s s')
    : Hops net s'.calls := by
  cases effect with
  | opened fresh => exact hops.opened fresh _ _ _
  | moved here before after direct =>
      refine hops.replaced here rfl ?_ ?_
      · rw [CallPc.peerCall?_early before, CallPc.peerCall?_early after]
      · intro forwards
        exact (direct forwards).elim id (hops.direct here)
  | forwarded here pc fresh => exact hops.forwarded here pc fresh _
  | enqueued here pc => exact hops.replaced here rfl (by rw [pc]; rfl) nofun
  | proxied here pc => exact hops.replaced here rfl rfl (fun forwards => hops.direct here forwards)
  | ended here pc =>
      exact hops.replaced here rfl (by rw [pc]; rfl) (fun _ => hops.direct here (by rw [pc]; rfl))
  | gossiped | served => exact hops

theorem placed_effect (placed : Placed s.calls s.enqueued) (effect : Effect net s s')
    : Placed s'.calls s'.enqueued := by
  have unserved : ∀ {c call pc}, s.calls c = some call → call.pc = pc → pc.served = false →
      ∀ old, s.calls c = some old → old.pc.served = false := by
    rintro c call pc here rfl served old found
    obtain rfl := Option.some.inj (here.symm.trans found)
    exact served
  cases effect with
  | opened fresh =>
      exact placed.replaced (fun _ found => nomatch fresh.symm.trans found) rfl
        (fun _ => nofun)
  | moved here before after direct serves =>
      exact placed.replaced (unserved here rfl (CallPc.served_early before))
        (CallPc.served_early after) serves
  | @forwarded c call peer peerCall peerNode here pc fresh =>
      have apart : peerCall ≠ c := by
        rintro rfl
        exact nomatch fresh.symm.trans here
      have relaying : Placed
          (Function.update s.calls c (some { call with pc := .relaying peerCall })) s.enqueued :=
        placed.replaced (unserved here pc rfl) rfl (fun _ => nofun)
      refine relaying.replaced ?_ rfl (fun _ => nofun)
      rw [Function.update_of_ne apart, fresh]
      exact fun _ => nofun
  | enqueued here pc => exact placed.enqueued here pc
  | proxied here pc =>
      refine placed.replaced (unserved here pc rfl) (by rw [pc]; rfl) ?_
      rw [pc]
      exact fun _ => nofun
  | ended here pc => exact placed.replaced (unserved here pc rfl) rfl (fun _ => nofun)
  | gossiped | served => exact placed

theorem stream_prefix_service {n : N} {label : Execution.Label W (C ⊕ K)}
    {service : System W (C ⊕ K)} (taken : (s.services n).step label = some service)
    (services : s'.services = Function.update s.services n service)
    (calls : s'.calls = s.calls) (c : C)
    : s.stream c <+: s'.stream c := by
  cases here : s.calls c with
  | none =>
      rw [stream_fresh here]
      exact List.nil_prefix
  | some call =>
      have here' : s'.calls c = some call := by rw [calls, here]
      cases served : call.pc.served with
      | false =>
          rw [stream_unserved here served, stream_unserved here' served]
      | true =>
          rw [stream_served here served, stream_served here' served, services]
          by_cases same : call.node = n
          · subst same
            rw [Function.update_self]
            exact (System.step_effect taken).sent_grows _
          · rw [Function.update_of_ne same]

theorem Effect.stream_grows (streams : s.Streams) (effect : Effect net s s') (c : C)
    : s.stream c <+: s'.stream c := by
  cases effect with
  | opened fresh =>
      refine stream_prefix_setCall rfl ?_ c
      rw [stream_fresh fresh]
      exact List.nil_prefix
  | moved here before after =>
      refine stream_prefix_setCall (CallPc.served_early after) ?_ c
      rw [stream_unserved here (CallPc.served_early before)]
  | @forwarded d call peer peerCall peerNode here pc fresh =>
      have apart : peerCall ≠ d := by
        rintro rfl
        exact nomatch fresh.symm.trans here
      refine (stream_prefix_setCall rfl ?_ c).trans (stream_prefix_setCall rfl ?_ c)
      · rw [stream_unserved here (by rw [pc]; rfl)]
      · rw [stream_fresh ((Function.update_of_ne apart ..).trans fresh)]
        exact List.nil_prefix
  | @enqueued d call request uuid now waiting service here pc taken =>
      by_cases same : c = d
      · subst same
        rw [stream_unserved here (by rw [pc]; rfl), streams.quiet here (by rw [pc]; rfl)]
        exact List.nil_prefix
      · let moved := s.setCall d { call with pc := .serving request }
        have before : moved.stream c = s.stream c :=
          stream_congr (Function.update_of_ne same ..) rfl
        rw [← before]
        refine stream_prefix_service (s := moved) taken ?_ ?_ c
        · rfl
        · rfl
  | proxied here pc next =>
      refine stream_prefix_setCall (by rw [pc]; rfl) ?_ c
      rw [stream_unserved here (by rw [pc]; rfl)]
      exact List.prefix_append _ _
  | ended here pc =>
      refine stream_prefix_setCall rfl ?_ c
      rw [stream_unserved here (by rw [pc]; rfl)]
  | gossiped =>
      rw [stream_congr rfl rfl]
      exact List.prefix_rfl
  | served taken =>
      refine stream_prefix_service taken ?_ ?_ c
      · rfl
      · rfl

theorem Streams.services_update (streams : s.Streams) {n : N}
    {label : Execution.Label W (C ⊕ K)} {service : System W (C ⊕ K)}
    (taken : (s.services n).step label = some service) (m : N)
    : System.machine.Reachable Lib.Machine.anyStep
        (Function.update s.services n service m) := by
  by_cases same : m = n
  · subst same
    rw [Function.update_self]
    exact (streams.services m).next trivial taken
  · rw [Function.update_of_ne same]
    exact streams.services m

theorem Streams.effect (streams : s.Streams) (effect : Effect net s s') : s'.Streams := by
  have grows := effect.stream_grows streams
  have silent : ∀ {call : ExecuteCall N C}, call.pc.peerCall? = none → call.proxied = [] →
      (call.pc.peerCall? = none → call.proxied = [])
      ∧ ∀ peerCall, call.pc.peerCall? = some peerCall → call.proxied <+: s.stream peerCall := by
    intro call unlinked quiet
    refine ⟨fun _ => quiet, fun peerCall linked => ?_⟩
    rw [unlinked] at linked
    cases linked
  cases effect with
  | opened fresh =>
      exact streams.change grows streams.services rfl (silent rfl rfl)
  | moved here before after =>
      have quiet := streams.quiet here (CallPc.peerCall?_early before)
      exact streams.change grows streams.services rfl
        (silent (CallPc.peerCall?_early after) quiet)
  | forwarded here pc fresh =>
      refine streams.carry grows streams.services (fun c call found => ?_)
      rcases Lib.update_cases id found with ⟨-, same⟩ | ⟨-, found⟩
      · cases same
        exact .inr (silent rfl rfl)
      rcases Lib.update_cases id found with ⟨-, same⟩ | ⟨-, old⟩
      · cases same
        refine .inr ⟨nofun, fun _ _ => ?_⟩
        rw [streams.quiet here (by rw [pc]; rfl)]
        exact List.nil_prefix
      · exact .inl old
  | enqueued here pc taken =>
      have quiet := streams.quiet here (by rw [pc]; rfl)
      exact streams.change grows (streams.services_update taken) rfl (silent rfl quiet)
  | proxied here pc next =>
      refine streams.change grows streams.services rfl
        ⟨by rw [pc]; exact nofun, fun peerCall linked => ?_⟩
      rw [pc] at linked
      obtain rfl := Option.some.inj linked
      obtain ⟨shorter, rfl⟩ := List.getElem?_eq_some_iff.mp next
      exact List.concat_get_prefix (streams.proxied here (by rw [pc]; rfl)) shorter
  | ended here pc =>
      have before := streams.proxied here (congrArg CallPc.peerCall? pc)
      refine streams.change grows streams.services rfl ⟨nofun, fun peerCall linked => ?_⟩
      obtain rfl := Option.some.inj linked
      exact before
  | gossiped => exact streams.carry grows streams.services (fun _ _ => .inl)
  | served taken =>
      exact streams.carry grows (streams.services_update taken) (fun _ _ => .inl)

theorem sound_inductive
    : (machine net : Lib.Machine (Forwarding N C W K) (Event N C W K)).Inductive
        Lib.Machine.anyStep
        (fun s => Hops net s.calls ∧ Placed s.calls s.enqueued ∧ s.Streams) where
  start s initial := by
    obtain ⟨services, calls, enqueued⟩ := initial
    have absent : ∀ {c call} {P : Prop}, s.calls c = some call → P := by
      intro c call P found
      exact nomatch (calls c).symm.trans found
    refine ⟨⟨absent, absent, absent⟩, ⟨absent, ?_, ?_⟩, ⟨?_, absent, absent⟩⟩
    · intro c
      rw [enqueued, calls]
      simp
    · rw [enqueued]
      exact List.nodup_nil
    · intro n
      obtain ⟨queueSize, same⟩ := services n
      exact .start ⟨queueSize, net.nodeID n, same⟩
  keeps s event s' sound _ taken := by
    obtain ⟨hops, placed, streams⟩ := sound
    have effect := step_effect taken
    exact ⟨hops_effect hops effect, placed_effect placed effect, streams.effect effect⟩

/-- In every state that a cluster reaches, for every client's `Execute` call: at most two nodes
process the request, at most one `Enqueue` happens for it, and everything that the client
received carries one operation name.
-/
theorem single_hop_single_operation
    (reach
      : (machine net : Lib.Machine (Forwarding N C W K) (Event N C W K)).Reachable
          Lib.Machine.anyStep s)
    (c : C)
    : (s.processedBy c).encard ≤ 2
      ∧ (s.enqueuesFor c).length ≤ 1
      ∧ ∃ name, ∀ op ∈ s.stream c, op.name = name := by
  obtain ⟨hops, placed, streams⟩ := sound_inductive.reachable reach
  exact ⟨processedBy_encard_le hops c, enqueuesFor_length_le hops placed c,
    one_name hops streams c⟩

def pair : Forwarding (Fin 2) (Fin 3) (Fin 1) (Fin 1) where
  services n := System.new 100 (Nodes.pairNetwork.nodeID n)
  peers n := some (Nodes.pair.peers n)
  calls _ := none
  enqueued := []

/-- One client keeps the first node busy; a second client's call is forwarded to the second
node, which does not forward it back, and its client receives two messages.
-/
def forwardOne : List (Event (Fin 2) (Fin 3) (Fin 1) (Fin 1)) :=
  let request : ExecuteRequest := { actionDigest := sampleDigest, skipCacheLookup := false }
  [.execute 0 0 none request, .getActionResult 0 none, .selectBestPeer 0 [Nodes.peerB],
    .enqueue 0 sampleUUID 0 none, .service 0 (.insert (.inl 0)),
    .execute 1 0 none request, .getActionResult 1 none, .selectBestPeer 1 [Nodes.peerB],
    .getOrCreateConn 1 none, .clientExecute 1 (.ok 2), .getActionResult 2 none,
    .selectBestPeer 2 [Nodes.peerA], .enqueue 2 otherUUID 0 none,
    .service 1 (.insert (.inl 2)), .service 1 (.handler (.inl 2) .subscribe),
    .service 1 (.handler (.inl 2) (.send none)), .proxy 1 none, .service 1 (.dequeue 0),
    .service 1 (.updateState 0 1), .service 1 (.handler (.inl 2) (.receive false)),
    .service 1 (.handler (.inl 2) .getOperation), .service 1 (.handler (.inl 2) (.send none)),
    .proxy 1 none]

/-- The forwarded call, its one `Enqueue` at the second node and its two messages. -/
theorem forwarded_call_single_operation
    : ∃ s : Forwarding (Fin 2) (Fin 3) (Fin 1) (Fin 1),
        (machine Nodes.pairNetwork).Reachable Lib.Machine.anyStep s
        ∧ (s.stream 1).length = 2 ∧ s.enqueuesFor 1 = [2]
        ∧ (s.processedBy 1).encard ≤ 2
        ∧ ∃ name, ∀ op ∈ s.stream 1, op.name = name := by
  obtain ⟨s, run, tested⟩ := Lib.Machine.exists_run_of_exec (machine Nodes.pairNetwork) pair
    forwardOne (fun s => (s.stream 1).length = 2 ∧ s.enqueuesFor 1 = [2]) (by decide +kernel)
  have reach : (machine Nodes.pairNetwork).Reachable Lib.Machine.anyStep s :=
    ⟨pair, forwardOne, ⟨fun n => ⟨100, rfl⟩, fun _ => rfl, rfl⟩, run⟩
  obtain ⟨streamed, enqueued⟩ := of_decide_eq_true tested
  obtain ⟨nodes, -, named⟩ := single_hop_single_operation reach 1
  exact ⟨s, reach, streamed, enqueued, nodes, named⟩

end Forwarding

end GoREgo.Cluster
