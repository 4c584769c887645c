import GoREgo.Cluster.Gossip

/-! Which addresses the peer table offers. A bind address is replaced by the gossip host on a
join or an update and by the known host on a state message; without a known host it stays. A
node whose metadata did not fit has no address, but no capacity either.
-/

namespace GoREgo.Cluster

open Lib

def Concrete (host : String) : Prop :=
  isBindHost host = false ∧ Plain host.toList

instance (host : String) : Decidable (Concrete host) :=
  inferInstanceAs (Decidable (_ ∧ _))

def GossipState.hasPort (state : GossipState) : Bool :=
  (splitHostPort state.grpcAddress).isSome

def GossipState.listens (state : GossipState) : Bool :=
  (splitHostPort state.grpcAddress).any (fun parts => isBindHost parts.1)

def Wire.advertises : Wire → Bool
  | .empty => true
  | .encoded state => state.hasPort
  | .garbage => false

/-- Notices about peers with a concrete gossip address that advertise a host and a port. -/
def Advertises : Notice → Prop
  | .notifyJoin node _ | .notifyUpdate node =>
      Concrete node.addr ∧ node.metadata.advertises = true
  | .notifyLeave _ => True
  | .notifyMsg msg | .mergeRemoteState msg => msg.advertises = true

def Notice.advert? : Notice → Option (String × GossipState)
  | .notifyJoin node _ | .notifyUpdate node =>
      match node.metadata with
      | .encoded state => some (node.name, state)
      | _ => none
  | .notifyMsg (.encoded state) | .mergeRemoteState (.encoded state) =>
      some (state.name, state)
  | _ => none

theorem splitHostPort_rehost {state : GossipState} {host port : String}
    (split : splitHostPort state.grpcAddress = some (host, port)) {host? : Option String}
    (concrete : ∀ other, host? = some other → Concrete other)
    (known : isBindHost host = true → host?.isSome = true)
    : ∃ dialed, splitHostPort (state.rehost host?).grpcAddress = some (dialed, port)
        ∧ isBindHost dialed = false := by
  obtain ⟨-, plain, single⟩ := plain_of_splitHostPort split
  cases binds : isBindHost host with
  | false =>
      have same : state.rehost host? = state := by
        cases host? <;> simp [GossipState.rehost, split, binds]
      exact ⟨host, by rw [same, split], binds⟩
  | true =>
      obtain ⟨other, rfl⟩ := Option.isSome_iff_exists.mp (known binds)
      obtain ⟨dialable, plainHost⟩ := concrete other rfl
      refine ⟨other, ?_, dialable⟩
      have joined : (state.rehost (some other)).grpcAddress = joinHostPort other port := by
        simp [GossipState.rehost, split, binds]
      rw [joined]
      exact splitHostPort_joinHostPort plainHost plain single

/-- A manager with the port that each name advertised last. -/
structure Dialing where
  manager : Manager
  ports : String → Option String

namespace Dialing

def step (s : Dialing) (notice : Notice) : Option Dialing :=
  some
    { manager := s.manager.handle notice
      ports :=
        match notice.advert? with
        | some (name, state) =>
            Function.update s.ports name ((splitHostPort state.grpcAddress).map Prod.snd)
        | none => s.ports }

def machine : Lib.Machine Dialing Notice where
  initial s := s.manager.peers = ∅
  step := step

def Known (s : Dialing) : Notice → Prop
  | .notifyMsg (.encoded state) | .mergeRemoteState (.encoded state) =>
      state.listens = true → state.name ≠ s.manager.nodeID →
        (s.manager.knownHost state.name).isSome = true
  | _ => True

def Introduced (s : Dialing) (notice : Notice) : Prop :=
  Advertises notice ∧ Known s notice

def Offered (port? : Option String) (state : GossipState) : Prop :=
  (∃ host port, splitHostPort state.grpcAddress = some (host, port)
      ∧ isBindHost host = false ∧ port? = some port)
  ∨ (splitHostPort state.grpcAddress = none ∧ ¬ state.pendingTasks < state.maxConcurrency)

structure Dialable (s : Dialing) : Prop where
  own : s.manager.peers.lookup s.manager.nodeID = none
  offered
    : ∀ name state, s.manager.peers.lookup name = some state → Offered (s.ports name) state

theorem Dialable.knownHost {s : Dialing} (dialable : s.Dialable) {name host : String}
    (known : s.manager.knownHost name = some host)
    : Concrete host := by
  obtain ⟨state, found, parts⟩ := Option.bind_eq_some_iff.mp known
  obtain ⟨⟨host, port⟩, split, rfl⟩ := Option.map_eq_some_iff.mp parts
  rcases dialable.offered name state found with ⟨host', port', split', dialed, -⟩ | ⟨unsplit, -⟩
  · obtain ⟨rfl, rfl⟩ := Prod.mk.inj (Option.some.inj (split'.symm.trans split))
    exact ⟨dialed, (plain_of_splitHostPort split).1⟩
  · exact nomatch unsplit.symm.trans split

theorem Dialable.write {s s' : Dialing} (dialable : s.Dialable) {name : String}
    {state : GossipState} (remote : name ≠ s.manager.nodeID)
    (manager
      : s'.manager = { s.manager with peers := s.manager.peers.insert name state })
    (others : ∀ other, other ≠ name → s'.ports other = s.ports other)
    (offered : Offered (s'.ports name) state)
    : s'.Dialable := by
  refine ⟨?_, fun other found lookup => ?_⟩
  · rw [manager]
    exact (AList.lookup_insert_ne (Ne.symm remote)).trans dialable.own
  · rw [manager] at lookup
    by_cases same : other = name
    · subst same
      obtain rfl := Option.some.inj ((AList.lookup_insert _).symm.trans lookup)
      exact offered
    · rw [others other same]
      exact dialable.offered other found ((AList.lookup_insert_ne same).symm.trans lookup)

theorem offered_rehost {state : GossipState} (hasPort : state.hasPort = true)
    {host? : Option String} (concrete : ∀ other, host? = some other → Concrete other)
    (known : state.listens = true → host?.isSome = true)
    : Offered ((splitHostPort state.grpcAddress).map Prod.snd) (state.rehost host?) := by
  obtain ⟨⟨host, port⟩, split⟩ := Option.isSome_iff_exists.mp hasPort
  have known : isBindHost host = true → host?.isSome = true := by
    simpa [GossipState.listens, split] using known
  obtain ⟨dialed, split', dialable⟩ := splitHostPort_rehost split concrete known
  exact .inl ⟨dialed, port, split', dialable, by rw [split]; rfl⟩

theorem offered_zero (port? : Option String) (host? : Option String)
    : Offered port? (GossipState.zero.rehost host?) := by
  have unsplit : splitHostPort GossipState.zero.grpcAddress = none := by decide
  have same : GossipState.zero.rehost host? = GossipState.zero := by
    simp [GossipState.rehost, unsplit]
  rw [same]
  exact .inr ⟨unsplit, by decide⟩

section Notices

variable {s s' : Dialing} {notice : Notice}

variable {name : String} {state : GossipState} {node : Member}

theorem ports_other (taken : s.step notice = some s')
    (about : ∀ other state, notice.advert? = some (other, state) → name ≠ other)
    : s'.ports name = s.ports name := by
  obtain rfl := Option.some.inj taken
  cases advert : notice.advert? with
  | none => simp
  | some pair => simp [Function.update_of_ne (about pair.1 pair.2 advert)]

theorem ports_advert (taken : s.step notice = some s')
    (advert : notice.advert? = some (name, state))
    : s'.ports name = (splitHostPort state.grpcAddress).map Prod.snd := by
  obtain rfl := Option.some.inj taken
  simp [advert]

theorem advert_of_message (brings : notice.message? = some state)
    : notice.advert? = some (state.name, state) := by
  cases notice with
  | notifyMsg msg | mergeRemoteState msg =>
      cases msg with
      | encoded other =>
          obtain rfl := Option.some.inj brings
          rfl
      | empty | garbage => cases brings
  | notifyJoin | notifyUpdate | notifyLeave => cases brings

theorem advert_of_arrival (reports : notice.arrival? = some node)
    (encoded : node.metadata = .encoded state)
    : notice.advert? = some (node.name, state) := by
  cases notice with
  | notifyJoin other | notifyUpdate other =>
      obtain rfl := Option.some.inj reports
      simp [Notice.advert?, encoded]
  | notifyMsg | mergeRemoteState | notifyLeave => cases reports

theorem advert_cases (advert : notice.advert? = some (name, state))
    : (notice.message? = some state ∧ name = state.name)
      ∨ ∃ node, notice.arrival? = some node ∧ node.metadata = .encoded state
          ∧ name = node.name := by
  cases notice with
  | notifyJoin node | notifyUpdate node =>
      cases encoded : node.metadata with
      | encoded other =>
          simp only [Notice.advert?, encoded, Option.some.injEq, Prod.mk.injEq] at advert
          obtain ⟨rfl, rfl⟩ := advert
          exact .inr ⟨node, rfl, encoded, rfl⟩
      | empty | garbage => simp [Notice.advert?, encoded] at advert
  | notifyMsg msg | mergeRemoteState msg =>
      cases msg with
      | encoded other =>
          obtain ⟨rfl, rfl⟩ := Prod.mk.inj (Option.some.inj advert)
          exact .inl ⟨rfl, rfl⟩
      | empty | garbage => cases advert
  | notifyLeave => cases advert

theorem Introduced.message (introduced : Introduced s notice)
    (brings : notice.message? = some state)
    : state.hasPort = true
      ∧ (state.listens = true → state.name ≠ s.manager.nodeID →
          (s.manager.knownHost state.name).isSome = true) := by
  cases notice with
  | notifyMsg msg | mergeRemoteState msg =>
      cases msg with
      | encoded other =>
          obtain rfl := Option.some.inj brings
          exact introduced
      | empty | garbage => cases brings
  | notifyJoin | notifyUpdate | notifyLeave => cases brings

theorem Introduced.arrival (introduced : Introduced s notice)
    (reports : notice.arrival? = some node)
    : Concrete node.addr ∧ node.metadata.advertises = true := by
  cases notice with
  | notifyJoin other | notifyUpdate other =>
      obtain rfl := Option.some.inj reports
      exact introduced.1
  | notifyMsg | mergeRemoteState | notifyLeave => cases reports

theorem Dialable.message (dialable : s.Dialable) (introduced : Introduced s notice)
    (taken : s.step notice = some s') (brings : notice.message? = some state)
    (remote : state.name ≠ s.manager.nodeID) (manager
      : s'.manager
          = { s.manager with
              peers := s.manager.peers.insert state.name
                (state.rehost (s.manager.knownHost state.name)) })
    : s'.Dialable := by
  have advert := advert_of_message brings
  obtain ⟨hasPort, known⟩ := introduced.message brings
  refine dialable.write remote manager (fun other away => ?_) ?_
  · refine ports_other taken (fun name sent advert' => ?_)
    obtain ⟨rfl, -⟩ := Prod.mk.inj (Option.some.inj (advert.symm.trans advert'))
    exact away
  · rw [ports_advert taken advert]
    exact offered_rehost hasPort (fun _ => dialable.knownHost) (known · remote)

theorem Dialable.arrived (dialable : s.Dialable) (introduced : Introduced s notice)
    (taken : s.step notice = some s') (reports : notice.arrival? = some node)
    (decoded : ∀ {other}, node.metadata.unmarshal = some other → state = other)
    (remote : node.name ≠ s.manager.nodeID) (manager
      : s'.manager
          = { s.manager with
              peers := s.manager.peers.insert node.name (state.rehost (some node.addr)) })
    : s'.Dialable := by
  obtain ⟨concrete, advertises⟩ := introduced.arrival reports
  have others : ∀ other, other ≠ node.name → s'.ports other = s.ports other := by
    intro other away
    refine ports_other taken (fun name sent advert => ?_)
    rcases advert_cases advert with ⟨brings, -⟩ | ⟨node', reports', -, rfl⟩
    · cases notice <;> simp [Notice.arrival?, Notice.message?] at reports brings
    · obtain rfl := Option.some.inj (reports.symm.trans reports')
      exact away
  refine dialable.write remote manager others ?_
  cases encoded : node.metadata with
  | garbage => simp [encoded, Wire.advertises] at advertises
  | empty =>
      obtain rfl : state = .zero := decoded (by rw [encoded]; rfl)
      exact offered_zero _ _
  | encoded sent =>
      obtain rfl : state = sent := decoded (by rw [encoded]; rfl)
      rw [encoded] at advertises
      rw [ports_advert taken (advert_of_arrival reports encoded)]
      refine offered_rehost advertises (fun other same => ?_) (fun _ => rfl)
      obtain rfl := Option.some.inj same
      exact concrete

end Notices

theorem dialable_inductive : machine.Inductive Introduced Dialable where
  start s initial := by
    have absent : ∀ name, s.manager.peers.lookup name = none := by
      intro name
      rw [initial]
      exact AList.lookup_empty _
    exact ⟨absent _, fun name state found => nomatch (absent name).symm.trans found⟩
  keeps s notice s' dialable introduced taken := by
    have written := s.manager.handle_written notice
    have manager : s.manager.handle notice = s'.manager := by
      obtain rfl := Option.some.inj taken
      rfl
    rw [manager] at written
    generalize after : s'.manager = m at written
    cases written with
    | same ignored _ refused =>
        refine ⟨?_, fun name state found => ?_⟩
        · rw [after]
          exact dialable.own
        · rw [after] at found
          have remote : name ≠ s.manager.nodeID := by
            rintro rfl
            exact nomatch dialable.own.symm.trans found
          rw [ports_other taken]
          · exact dialable.offered name state found
          · -- An ignored notice advertises for the local node, or does not decode.
            rintro other sent advert rfl
            rcases advert_cases advert with ⟨brings, rfl⟩ | ⟨node, reports, encoded, rfl⟩
            · exact remote (ignored sent brings)
            · rcases refused node reports with own | undecoded
              · exact remote own
              · rw [encoded] at undecoded
                cases undecoded
    | message brings remote => exact dialable.message introduced taken brings remote after
    | arrived reports decoded remote =>
        exact dialable.arrived introduced taken reports decoded remote after
    | @left node leaves remote =>
        refine ⟨?_, fun name state found => ?_⟩
        · rw [after]
          exact (AList.lookup_erase_ne (Ne.symm remote)).trans dialable.own
        · rw [after] at found
          have away : name ≠ node.name := by
            rintro rfl
            exact nomatch (AList.lookup_erase _ _).symm.trans found
          rw [ports_other taken]
          · exact dialable.offered name state ((AList.lookup_erase_ne away).symm.trans found)
          · intro other sent advert
            cases notice <;> simp [Notice.departure?, Notice.advert?] at leaves advert

/-- While messages of others with a bind address come from known hosts only, every peer that
`SelectBestPeer` returns has an address with a host to dial and with the port that it advertised
last.
-/
theorem selected_dialable {s : Dialing} (reached : machine.Reachable Introduced s)
    {load capacity : Int} {peer : NodeState} (selects : s.manager.Selects load capacity peer)
    : ∃ name host port, (s.manager.getPeerByNodeID name) = some peer
        ∧ splitHostPort peer.grpcAddress = some (host, port)
        ∧ isBindHost host = false ∧ s.ports name = some port := by
  obtain ⟨name, state, found, rfl, room⟩ := selects.entry
  rcases (dialable_inductive.reachable reached).offered name state found with
    ⟨host, port, split, dialable, advertised⟩ | ⟨-, full⟩
  · refine ⟨name, host, port, ?_, split, dialable, advertised⟩
    rw [Manager.getPeerByNodeID, found]
    rfl
  · exact absurd room full

instance (notice : Notice) : Decidable (Advertises notice) :=
  match notice with
  | .notifyJoin .. | .notifyUpdate _ => inferInstanceAs (Decidable (_ ∧ _))
  | .notifyLeave _ => inferInstanceAs (Decidable True)
  | .notifyMsg _ | .mergeRemoteState _ => inferInstanceAs (Decidable (_ = _))

instance (s : Dialing) (notice : Notice) : Decidable (Known s notice) :=
  match notice with
  | .notifyMsg (.encoded _) | .mergeRemoteState (.encoded _) => inferInstanceAs (Decidable (_ → _))
  | .notifyMsg .empty | .notifyMsg .garbage | .mergeRemoteState .empty
  | .mergeRemoteState .garbage | .notifyJoin .. | .notifyUpdate _ | .notifyLeave _ =>
      inferInstanceAs (Decidable True)

instance (s : Dialing) (notice : Notice) : Decidable (Introduced s notice) :=
  inferInstanceAs (Decidable (_ ∧ _))

def fresh : Dialing where
  manager := { nodeID := "node-a", peers := ∅ }
  ports _ := none

/-- A later state of `memberB`, which listens on another port. -/
def moved : GossipState :=
  { Manager.stateAt 2 0 with grpcAddress := "[::]:50052" }

/-- A peer that joins with its metadata and then moves to another port is selected with its
gossip host and the new port.
-/
theorem moved_peer_dialable
    : ∃ s name host port, machine.Run Introduced fresh
          [.notifyJoin Membership.memberB 0, .notifyMsg (.encoded moved)] s
        ∧ s.manager.Selects 1 1 { moved.toNodeState with grpcAddress := "10.0.0.2:50052" }
        ∧ splitHostPort "10.0.0.2:50052" = some (host, port)
        ∧ isBindHost host = false ∧ s.ports name = some port := by
  obtain ⟨s, run, tested⟩ := Lib.Machine.exists_run_of_execIf machine Introduced fresh
    [.notifyJoin Membership.memberB 0, .notifyMsg (.encoded moved)]
    (fun s =>
      selectBestPeer 1 1 (s.manager.peers.entries.map (fun entry => entry.snd.toNodeState))
        = some { moved.toNodeState with grpcAddress := "10.0.0.2:50052" }) (by decide)
  have selects : s.manager.Selects 1 1
      { moved.toNodeState with grpcAddress := "10.0.0.2:50052" } :=
    ⟨_, .refl _, of_decide_eq_true tested⟩
  obtain ⟨name, host, port, -, dialable⟩ := selected_dialable ⟨fresh, _, rfl, run⟩ selects
  exact ⟨s, name, host, port, run, selects, dialable⟩

def oversized : Member :=
  { Membership.memberB with metadata := nodeMeta (Manager.stateAt 0 0) 600 512 }

/-- After a join without metadata there is no known host, so the first state message leaves its
bind address in the table and the peer is selected with it.
-/
theorem oversized_metadata_keeps_bind_host
    : ∃ s, machine.Run (fun _ => Advertises) fresh
          [.notifyJoin oversized 0, .notifyMsg (.encoded (Manager.stateAt 1 0))] s
        ∧ s.manager.Selects 1 1 (Manager.stateAt 1 0).toNodeState
        ∧ splitHostPort (Manager.stateAt 1 0).grpcAddress = some ("0.0.0.0", "50051")
        ∧ isBindHost "0.0.0.0" = true := by
  obtain ⟨s, run, tested⟩ := Lib.Machine.exists_run_of_execIf machine (fun _ => Advertises)
    fresh [.notifyJoin oversized 0, .notifyMsg (.encoded (Manager.stateAt 1 0))]
    (fun s =>
      selectBestPeer 1 1 (s.manager.peers.entries.map (fun entry => entry.snd.toNodeState))
        = some (Manager.stateAt 1 0).toNodeState) (by decide)
  exact ⟨s, run, ⟨_, .refl _, of_decide_eq_true tested⟩, by decide, by decide⟩

end Dialing

end GoREgo.Cluster
