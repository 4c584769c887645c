import GoREgo.Cluster.Model
import GoREgo.Lib.HostPort

/-! The peer table of a cluster manager: the membership events and the state messages that
write it, and the two readers that `Execute` and `WaitExecution` use.
-/

namespace GoREgo.Cluster

open Lib

/-- A `NodeState` message with the time it was made at; a missing time is the epoch. -/
structure GossipState extends NodeState where
  lastUpdated : Int
deriving DecidableEq, Repr

def GossipState.zero : GossipState where
  name := ""
  grpcAddress := ""
  pendingTasks := 0
  maxConcurrency := 0
  lastUpdated := 0

/-- Data that a peer sends: none, an encoded message, or bytes that do not decode. -/
inductive Wire
  | empty
  | encoded (state : GossipState)
  | garbage
deriving DecidableEq, Repr

/-- `proto.Unmarshal` into a `NodeState`. -/
def Wire.unmarshal : Wire → Option GossipState
  | .empty => some .zero
  | .encoded state => some state
  | .garbage => none

/-- `NodeMeta`: the local state, or nothing when its encoding exceeds the limit. -/
def nodeMeta (localState : GossipState) (size limit : Nat) : Wire :=
  if limit < size then .empty else .encoded localState

/-- A `memberlist.Node`: its name, its gossip address and its metadata. -/
structure Member where
  name : String
  addr : String
  port : Nat
  metadata : Wire
deriving DecidableEq, Repr

inductive Notice
  | notifyJoin (node : Member) (now : Int)
  | notifyUpdate (node : Member)
  | notifyLeave (node : Member)
  | notifyMsg (msg : Wire)
  | mergeRemoteState (buf : Wire)
deriving DecidableEq, Repr

def isBindHost (host : String) : Bool :=
  host = "" ∨ host = "0.0.0.0" ∨ host = "::"

def GossipState.rehost (state : GossipState) (host? : Option String) : GossipState :=
  match splitHostPort state.grpcAddress, host? with
  | some (host, port), some other =>
      if isBindHost host then { state with grpcAddress := joinHostPort other port } else state
  | _, _ => state

/-- A cluster manager: the local node's name and what it knows of its peers. -/
structure Manager where
  nodeID : String
  peers : AList (fun _ : String => GossipState)

namespace Manager

/-- `NotifyMsg`. A bind address takes the host that is already known for the sender. -/
def notifyMsg (m : Manager) (msg : Wire) : Manager :=
  if msg = .empty then
    m
  else
    match msg.unmarshal with
    | none => m
    | some state =>
        if state.name = m.nodeID then
          m
        else
          match m.peers.lookup state.name with
          | some existing =>
              let known := (splitHostPort existing.grpcAddress).map Prod.fst
              { m with peers := m.peers.insert state.name (state.rehost known) }
          -- New peer via broadcast (unlikely before Join, but possible)
          | none => { m with peers := m.peers.insert state.name state }

def mergeRemoteState (m : Manager) (buf : Wire) : Manager :=
  m.notifyMsg buf

/-- `NotifyJoin`. A bind address takes the gossip host. -/
def notifyJoin (m : Manager) (node : Member) (now : Int) : Manager :=
  if node.name = m.nodeID then
    m
  else
    let state :=
      match node.metadata.unmarshal with
      | some state => state
      | none =>
          { GossipState.zero with
            name := node.name
            grpcAddress := node.addr ++ ":" ++ toString node.port
            lastUpdated := now }
    { m with peers := m.peers.insert node.name (state.rehost (some node.addr)) }

/-- `NotifyUpdate`, regardless of existence. -/
def notifyUpdate (m : Manager) (node : Member) : Manager :=
  if node.name = m.nodeID then
    m
  else
    match node.metadata.unmarshal with
    | none => m
    | some state => { m with peers := m.peers.insert node.name (state.rehost (some node.addr)) }

def notifyLeave (m : Manager) (node : Member) : Manager :=
  if node.name = m.nodeID then m else { m with peers := m.peers.erase node.name }

def handle (m : Manager) : Notice → Manager
  | .notifyJoin node now => m.notifyJoin node now
  | .notifyUpdate node => m.notifyUpdate node
  | .notifyLeave node => m.notifyLeave node
  | .notifyMsg msg => m.notifyMsg msg
  | .mergeRemoteState buf => m.mergeRemoteState buf

def handleAll (m : Manager) (notices : List Notice) : Manager :=
  notices.foldl handle m

def getPeerByNodeID (m : Manager) (nodeID : String) : Option NodeState :=
  (m.peers.lookup nodeID).map GossipState.toNodeState

/-- `SelectBestPeer` returns this peer for the local load and capacity and for some order in
which the map is iterated.
-/
def Selects (m : Manager) (load capacity : Int) (peer : NodeState) : Prop :=
  ∃ order, order.Perm (m.peers.entries.map (fun entry => entry.snd.toNodeState))
    ∧ selectBestPeer load capacity order = some peer

theorem betterPeer_spec {best : Option NodeState × Int × Int} {peer next : NodeState}
    (held : (betterPeer best peer).1 = some next)
    : best.1 = some next ∨ (next = peer ∧ peer.pendingTasks < peer.maxConcurrency) := by
  unfold betterPeer at held
  split at held
  next better => exact .inr ⟨(Option.some.inj held).symm, better.1⟩
  next => exact .inl held

/-- The peer that `SelectBestPeer` returns is one of the peers and has capacity, by induction
over the peers with the best one so far.
-/
theorem selectBestPeer_spec {load capacity : Int} {order : List NodeState} {peer : NodeState}
    (selected : selectBestPeer load capacity order = some peer)
    : peer ∈ order ∧ peer.pendingTasks < peer.maxConcurrency := by
  have from_ : ∀ (order : List NodeState) (best : Option NodeState × Int × Int),
      (order.foldl betterPeer best).1 = some peer →
      best.1 = some peer ∨ (peer ∈ order ∧ peer.pendingTasks < peer.maxConcurrency) := by
    intro order
    induction order with
    | nil => exact fun best held => .inl held
    | cons head rest ih =>
        intro best held
        rcases ih _ held with here | ⟨later, capacity⟩
        · rcases betterPeer_spec here with before | ⟨rfl, capacity⟩
          · exact .inl before
          · exact .inr ⟨List.mem_cons_self, capacity⟩
        · exact .inr ⟨List.mem_cons_of_mem _ later, capacity⟩
  rcases from_ order _ selected with none_ | found
  · cases none_
  · exact found

theorem Selects.entry {m : Manager} {load capacity : Int} {peer : NodeState}
    (selects : m.Selects load capacity peer)
    : ∃ nodeID state, m.peers.lookup nodeID = some state ∧ state.toNodeState = peer
        ∧ state.pendingTasks < state.maxConcurrency := by
  obtain ⟨order, perm, selected⟩ := selects
  obtain ⟨member, room⟩ := selectBestPeer_spec selected
  obtain ⟨⟨nodeID, state⟩, listed, rfl⟩ := List.mem_map.mp (perm.mem_iff.mp member)
  exact ⟨nodeID, state, AList.mem_lookup_iff.mpr listed, rfl, room⟩

end Manager

def Notice.message? : Notice → Option GossipState
  | .notifyMsg (.encoded state) | .mergeRemoteState (.encoded state) => some state
  | _ => none

def Notice.arrival? : Notice → Option Member
  | .notifyJoin node _ | .notifyUpdate node => some node
  | _ => none

def Notice.departure? : Notice → Option Member
  | .notifyLeave node => some node
  | _ => none

namespace Manager

variable {m : Manager} {notice : Notice}

def knownHost (m : Manager) (peer : String) : Option String :=
  (m.peers.lookup peer).bind (fun existing => (splitHostPort existing.grpcAddress).map Prod.fst)

inductive Written (m : Manager) (notice : Notice) : Manager → Prop
  | same (ignored : ∀ state, notice.message? = some state → state.name = m.nodeID)
    (stays : ∀ node, notice.departure? = some node → node.name = m.nodeID)
    (refused
      : ∀ node, notice.arrival? = some node →
          node.name = m.nodeID ∨ node.metadata.unmarshal = none)
    : Written m notice m
  | message {state} (brings : notice.message? = some state) (remote : state.name ≠ m.nodeID)
    : Written m notice
        { m with
          peers := m.peers.insert state.name (state.rehost (m.knownHost state.name)) }
  | arrived {node state} (reports : notice.arrival? = some node)
    (decoded : ∀ {other}, node.metadata.unmarshal = some other → state = other)
    (remote : node.name ≠ m.nodeID)
    : Written m notice
        { m with peers := m.peers.insert node.name (state.rehost (some node.addr)) }
  | left {node} (leaves : notice.departure? = some node) (remote : node.name ≠ m.nodeID)
    : Written m notice { m with peers := m.peers.erase node.name }

theorem rehost_none (state : GossipState) : state.rehost none = state := by
  unfold GossipState.rehost
  split
  next known => cases known
  next => rfl

/-- A message does nothing, or writes the entry of its sender. -/
theorem notifyMsg_written {msg : Wire}
    (brings : ∀ state, notice.message? = some state ↔ msg = .encoded state)
    (stays : notice.departure? = none) (settled : notice.arrival? = none)
    : Written m notice (m.notifyMsg msg) := by
  have same : (∀ state, notice.message? = some state → state.name = m.nodeID) →
      Written m notice m := fun ignored =>
    .same ignored (fun node leaves => nomatch stays.symm.trans leaves)
      (fun node reports => nomatch settled.symm.trans reports)
  cases msg with
  | empty | garbage => exact same (fun state message => nomatch (brings state).mp message)
  | encoded state =>
      by_cases own : state.name = m.nodeID
      · have ignored : m.notifyMsg (.encoded state) = m := by
          simp [notifyMsg, Wire.unmarshal, own]
        rw [ignored]
        refine same (fun other message => ?_)
        cases (brings other).mp message
        exact own
      · have written : m.notifyMsg (.encoded state)
            = { m with
                peers := m.peers.insert state.name (state.rehost (m.knownHost state.name)) } := by
          cases found : m.peers.lookup state.name with
          | none => simp [notifyMsg, Wire.unmarshal, own, found, knownHost, rehost_none]
          | some existing => simp [notifyMsg, Wire.unmarshal, own, found, knownHost]
        rw [written]
        exact .message ((brings state).mpr rfl) own

theorem handle_written (m : Manager) (notice : Notice)
    : Written m notice (m.handle notice) := by
  cases notice with
  | notifyMsg msg | mergeRemoteState msg =>
      refine notifyMsg_written (fun state => ?_) rfl rfl
      cases msg <;> simp [Notice.message?]
  | notifyJoin node now =>
      simp only [handle, notifyJoin]
      split
      next own =>
        refine .same (fun _ => nofun) (fun _ => nofun) (fun other reports => .inl ?_)
        obtain rfl := Option.some.inj reports
        exact own
      next remote =>
        refine .arrived rfl ?_ remote
        intro other decoded
        rw [decoded]
  | notifyUpdate node =>
      simp only [handle, notifyUpdate]
      split
      next own =>
        refine .same (fun _ => nofun) (fun _ => nofun) (fun other reports => .inl ?_)
        obtain rfl := Option.some.inj reports
        exact own
      next remote =>
        split
        next undecoded =>
          refine .same (fun _ => nofun) (fun _ => nofun) (fun other reports => .inr ?_)
          obtain rfl := Option.some.inj reports
          exact undecoded
        next state decoded =>
          refine .arrived rfl ?_ remote
          intro other same
          exact Option.some.inj (decoded.symm.trans same)
  | notifyLeave node =>
      simp only [handle, notifyLeave]
      split
      next own =>
        refine .same (fun _ => nofun) (fun other leaves => ?_) (fun _ => nofun)
        obtain rfl := Option.some.inj leaves
        exact own
      next remote => exact .left rfl remote

end Manager

end GoREgo.Cluster
