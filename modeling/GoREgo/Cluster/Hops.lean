import GoREgo.Cluster.Forwarding
import GoREgo.Lib.Maps

/-! The `Execute` calls of a cluster, whichever way they are routed: the call that a node
forwards carries the forwarded-from header, a call with the header is not forwarded, and a call
enqueues what its node serves it with.
-/

namespace GoREgo.Cluster

open Scheduler Execution

section Pcs

variable {N C : Type}

def CallPc.early : CallPc C → Bool
  | .serving _ | .relaying _ | .relayed _ _ => false
  | _ => true

def CallPc.served : CallPc C → Bool
  | .serving _ => true
  | _ => false

def CallPc.forwards : CallPc C → Bool
  | .connecting _ | .forwarding _ | .relaying _ | .relayed _ _ => true
  | _ => false

def CallPc.peerCall? : CallPc C → Option C
  | .relaying peerCall | .relayed peerCall _ => some peerCall
  | _ => none

def CallPc.enqueues? : CallPc C → Option Request
  | .enqueueing request | .serving request => some request
  | _ => none

def ExecuteCall.Serves (call : ExecuteCall N C) (request : Request) : Prop :=
  ∃ cached, serve call.request cached call.node call.header none = (call.node, request)

theorem CallPc.peerCall?_early {pc : CallPc C} (early : pc.early = true)
    : pc.peerCall? = none := by
  cases pc with
  | serving | relaying | relayed => cases early
  | lookup | routing | connecting | forwarding | enqueueing => rfl

theorem CallPc.forwards_of_peerCall? {pc : CallPc C} {peerCall : C}
    (linked : pc.peerCall? = some peerCall)
    : pc.forwards = true := by
  cases pc with
  | relaying | relayed => rfl
  | lookup | routing | connecting | forwarding | enqueueing | serving => cases linked

theorem CallPc.served_early {pc : CallPc C} (early : pc.early = true) : pc.served = false := by
  cases pc with
  | serving | relaying | relayed => cases early
  | lookup | routing | connecting | forwarding | enqueueing => rfl

theorem ExecuteCall.serves_executeLocally (call : ExecuteCall N C) {request : Request}
    (next : call.executeLocally.enqueues? = some request)
    : call.Serves request := by
  obtain rfl := Option.some.inj next
  refine ⟨fun _ => none, ?_⟩
  cases header : call.header <;> simp [serve]

theorem ExecuteCall.serves_afterLookup (call : ExecuteCall N C) {found : Option ActionResult}
    {request : Request} (next : (call.afterLookup found).enqueues? = some request)
    : call.Serves request := by
  unfold ExecuteCall.afterLookup at next
  split at next
  next result hit =>
    obtain rfl := Option.some.inj next
    refine ⟨fun _ => some result, ?_⟩
    have looks : call.request.skipCacheLookup = false := by
      by_contra skips
      simp [skips] at hit
    simp [serve, looks]
  next => cases next

end Pcs

section Hops

variable {N C : Type}

/-- Only calls without the header are forwarded, the call they make carries it, and every call
is a client's or the one that a client's call made.
-/
structure Hops (net : Network N) (calls : C → Option (ExecuteCall N C)) : Prop where
  direct : ∀ {c call}, calls c = some call → call.pc.forwards = true → call.header = none
  peer
    : ∀ {c call peerCall},
        calls c = some call
        → call.pc.peerCall? = some peerCall
        → ∃ made, calls peerCall = some made
            ∧ made.header = some (net.nodeID call.node) ∧ made.request = call.request
  origin
    : ∀ {c call},
        calls c = some call
        → call.origin = c
          ∨ ∃ root, calls call.origin = some root ∧ root.pc.peerCall? = some c

variable {net : Network N} {calls : C → Option (ExecuteCall N C)} {c : C}
  {call call' : ExecuteCall N C}

theorem Hops.origin_direct (hops : Hops net calls) (here : calls c = some call)
    (direct : call.header = none)
    : call.origin = c := by
  rcases hops.origin here with own | ⟨root, found, made⟩
  · exact own
  · obtain ⟨peer, same, header, -⟩ := hops.peer found made
    obtain rfl := Option.some.inj (here.symm.trans same)
    exact nomatch direct.symm.trans header

theorem Hops.of_origin (hops : Hops net calls) {d : C} (found : calls d = some call)
    (origin : call.origin = c)
    : d = c ∨ ∃ root, calls c = some root ∧ root.pc.peerCall? = some d := by
  subst origin
  exact (hops.origin found).imp_left Eq.symm

theorem Hops.served_unique (hops : Hops net calls) {d e : C} {first second : ExecuteCall N C}
    (found : calls d = some first) (origin : first.origin = c)
    (served : first.pc.served = true) (found' : calls e = some second)
    (origin' : second.origin = c) (served' : second.pc.served = true)
    : d = e := by
  have unlinked : ∀ {call : ExecuteCall N C} {peerCall : C}, call.pc.served = true →
      call.pc.peerCall? ≠ some peerCall := by
    intro call peerCall served linked
    cases pc : call.pc <;> simp [pc, CallPc.served, CallPc.peerCall?] at served linked
  rcases hops.of_origin found origin with rfl | ⟨root, there, linked⟩
  · rcases hops.of_origin found' origin' with rfl | ⟨root, there, linked⟩
    · rfl
    · obtain rfl := Option.some.inj (there.symm.trans found)
      exact absurd linked (unlinked served)
  · rcases hops.of_origin found' origin' with rfl | ⟨root', there', linked'⟩
    · obtain rfl := Option.some.inj (there.symm.trans found')
      exact absurd linked (unlinked served')
    · obtain rfl := Option.some.inj (there.symm.trans there')
      exact Option.some.inj (linked.symm.trans linked')

variable [DecidableEq C]

theorem Hops.opened (hops : Hops net calls) (fresh : calls c = none) (n : N)
    (header : Option String) (request : ExecuteRequest)
    : Hops net (Function.update calls c (some (.new n header request c))) where
  direct found forwards := by
    rcases Lib.update_cases id found with ⟨rfl, same⟩ | ⟨-, old⟩
    · cases same
      cases forwards
    · exact hops.direct old forwards
  peer found made := by
    rcases Lib.update_cases id found with ⟨rfl, same⟩ | ⟨-, old⟩
    · cases same
      cases made
    · obtain ⟨peer, there, same⟩ := hops.peer old made
      refine ⟨peer, ?_, same⟩
      rw [Function.update_of_ne, there]
      rintro rfl
      exact nomatch fresh.symm.trans there
  origin found := by
    rcases Lib.update_cases id found with ⟨rfl, same⟩ | ⟨-, old⟩
    · cases same
      exact .inl rfl
    · refine (hops.origin old).imp_right ?_
      rintro ⟨root, there, made⟩
      refine ⟨root, ?_, made⟩
      rw [Function.update_of_ne, there]
      intro same
      rw [same, fresh] at there
      cases there

theorem Hops.replaced (hops : Hops net calls) (here : calls c = some call)
    (same : call' = { call with pc := call'.pc, proxied := call'.proxied })
    (peer : call'.pc.peerCall? = call.pc.peerCall?)
    (direct : call'.pc.forwards = true → call.header = none)
    : Hops net (Function.update calls c (some call')) := by
  obtain ⟨node, header, request, origin, pc, proxied⟩ := call'
  obtain ⟨rfl, rfl, rfl, rfl⟩ : node = call.node ∧ header = call.header
      ∧ request = call.request ∧ origin = call.origin := by
    simpa using same
  -- every call is where it was, with the same fields that the hops are about
  have kept : ∀ {d other}, calls d = some other →
      ∃ new, Function.update calls c (some { call with pc, proxied }) d = some new
        ∧ new.header = other.header ∧ new.request = other.request
        ∧ new.pc.peerCall? = other.pc.peerCall? := by
    intro d other found
    by_cases at' : d = c
    · subst at'
      obtain rfl := Option.some.inj (here.symm.trans found)
      exact ⟨_, Function.update_self .., rfl, rfl, peer⟩
    · exact ⟨other, by rw [Function.update_of_ne at', found], rfl, rfl, rfl⟩
  refine ⟨?_, ?_, ?_⟩
  · intro d other found forwards
    rcases Lib.update_cases id found with ⟨rfl, same⟩ | ⟨-, old⟩
    · cases same
      exact direct forwards
    · exact hops.direct old forwards
  · intro d other peerCall found made
    obtain ⟨old, there, node, request, made⟩ : ∃ old, calls d = some old
        ∧ other.node = old.node ∧ other.request = old.request
        ∧ old.pc.peerCall? = some peerCall := by
      rcases Lib.update_cases id found with ⟨rfl, same⟩ | ⟨-, old⟩
      · cases same
        exact ⟨call, here, rfl, rfl, peer ▸ made⟩
      · exact ⟨other, old, rfl, rfl, made⟩
    obtain ⟨made, found, header, same⟩ := hops.peer there made
    obtain ⟨new, found, header', same', -⟩ := kept found
    exact ⟨new, found, by rw [header', header, node], by rw [same', same, request]⟩
  · intro d other found
    have origin : ∃ old, calls d = some old ∧ other.origin = old.origin := by
      rcases Lib.update_cases id found with ⟨rfl, same⟩ | ⟨-, old⟩
      · cases same
        exact ⟨call, here, rfl⟩
      · exact ⟨other, old, rfl⟩
    obtain ⟨old, there, same⟩ := origin
    rw [same]
    refine (hops.origin there).imp_right ?_
    rintro ⟨root, found, made⟩
    obtain ⟨new, found, -, -, same⟩ := kept found
    exact ⟨new, found, same.trans made⟩

theorem Hops.forwarded (hops : Hops net calls) (here : calls c = some call) {peer : NodeState}
    (pc : call.pc = .forwarding peer) {peerCall : C} (fresh : calls peerCall = none)
    (peerNode : N)
    : Hops net
        (Function.update (Function.update calls c (some { call with pc := .relaying peerCall }))
          peerCall (some (.new peerNode (some (net.nodeID call.node)) call.request call.origin)))
    := by
  have direct : call.header = none := hops.direct here (by rw [pc]; rfl)
  have own : call.origin = c := hops.origin_direct here direct
  have apart : c ≠ peerCall := by
    rintro rfl
    exact nomatch fresh.symm.trans here
  have elsewhere : ∀ {d other}, calls d = some other → d ≠ c →
      Function.update (Function.update calls c (some { call with pc := .relaying peerCall }))
        peerCall (some (.new peerNode (some (net.nodeID call.node)) call.request call.origin)) d
      = some other := by
    intro d other found away
    rw [Function.update_of_ne, Function.update_of_ne away, found]
    rintro rfl
    exact nomatch fresh.symm.trans found
  have there : Function.update
      (Function.update calls c (some { call with pc := .relaying peerCall }))
        peerCall (some (.new peerNode (some (net.nodeID call.node)) call.request call.origin)) c
      = some { call with pc := .relaying peerCall } := by
    rw [Function.update_of_ne apart, Function.update_self]
  refine ⟨?_, ?_, ?_⟩
  · intro d other found forwards
    rcases Lib.update_cases id found with ⟨-, same⟩ | ⟨-, found⟩
    · cases same
      cases forwards
    rcases Lib.update_cases id found with ⟨-, same⟩ | ⟨-, old⟩
    · cases same
      exact direct
    · exact hops.direct old forwards
  · intro d other made found linked
    rcases Lib.update_cases id found with ⟨-, same⟩ | ⟨-, found⟩
    · cases same
      cases linked
    rcases Lib.update_cases id found with ⟨-, same⟩ | ⟨-, old⟩
    · cases same
      obtain rfl := Option.some.inj linked
      exact ⟨_, Function.update_self .., rfl, rfl⟩
    · obtain ⟨peer, reached, header, same⟩ := hops.peer old linked
      refine ⟨peer, elsewhere reached ?_, header, same⟩
      rintro rfl
      obtain rfl := Option.some.inj (here.symm.trans reached)
      exact nomatch direct.symm.trans header
  · intro d other found
    rcases Lib.update_cases id found with ⟨rfl, same⟩ | ⟨-, found⟩
    · cases same
      exact .inr ⟨{ call with pc := .relaying d }, (congrArg _ own).trans there, rfl⟩
    rcases Lib.update_cases id found with ⟨rfl, same⟩ | ⟨-, old⟩
    · cases same
      exact .inl own
    · refine (hops.origin old).imp_right ?_
      rintro ⟨root, found, linked⟩
      refine ⟨root, elsewhere found ?_, linked⟩
      intro same
      obtain rfl := Option.some.inj (here.symm.trans (same ▸ found))
      rw [pc] at linked
      cases linked

end Hops

section Enqueues

variable {N C : Type}

structure Placed (calls : C → Option (ExecuteCall N C)) (enqueued : List C) : Prop where
  serves
    : ∀ {c call request},
        calls c = some call → call.pc.enqueues? = some request → call.Serves request
  listed : ∀ c, c ∈ enqueued ↔ ∃ call, calls c = some call ∧ call.pc.served = true
  once : enqueued.Nodup

variable [DecidableEq C] {calls : C → Option (ExecuteCall N C)} {callers : List C} {c : C}
  {call : ExecuteCall N C}

theorem Placed.replaced (placed : Placed calls callers)
    (before : ∀ old, calls c = some old → old.pc.served = false)
    (after : call.pc.served = false)
    (serves : ∀ request, call.pc.enqueues? = some request → call.Serves request)
    : Placed (Function.update calls c (some call)) callers where
  serves found enqueues := by
    rcases Lib.update_cases id found with ⟨-, same⟩ | ⟨-, old⟩
    · cases same
      exact serves _ enqueues
    · exact placed.serves old enqueues
  listed d := by
    rw [placed.listed]
    by_cases same : d = c
    · subst same
      rw [Function.update_self]
      constructor
      · rintro ⟨old, found, served⟩
        rw [before old found] at served
        cases served
      · rintro ⟨new, same, served⟩
        obtain rfl := Option.some.inj same
        rw [after] at served
        cases served
    · rw [Function.update_of_ne same]
  once := placed.once

theorem Placed.enqueued (placed : Placed calls callers) (here : calls c = some call)
    {request : Request} (pc : call.pc = .enqueueing request)
    : Placed (Function.update calls c (some { call with pc := .serving request }))
        (c :: callers) where
  serves found enqueues := by
    rcases Lib.update_cases id found with ⟨-, same⟩ | ⟨-, old⟩
    · cases same
      have serves := placed.serves here (congrArg CallPc.enqueues? pc)
      obtain rfl := Option.some.inj enqueues
      exact serves
    · exact placed.serves old enqueues
  listed d := by
    by_cases same : d = c
    · subst same
      rw [Function.update_self]
      exact ⟨fun _ => ⟨_, rfl, rfl⟩, fun _ => List.mem_cons_self⟩
    · rw [Function.update_of_ne same, List.mem_cons, or_iff_right same, placed.listed]
  once := by
    refine List.nodup_cons.mpr ⟨?_, placed.once⟩
    rw [placed.listed]
    rintro ⟨old, found, served⟩
    obtain rfl := Option.some.inj (here.symm.trans found)
    rw [pc] at served
    cases served

end Enqueues

end GoREgo.Cluster
