import GoREgo.Cluster.Membership
import Mathlib.Data.List.Induction

/-! What state messages leave in the peer table. `NotifyMsg` replaces the entry of its sender
whatever the times of the two states are, and makes one when there is none: the table shows the
message that came last, and a message that comes late brings a departed node back.
-/

namespace GoREgo.Cluster

open Lib

/-- The two numbers that `SelectBestPeer` compares. -/
def GossipState.load (state : GossipState) : Int × Int :=
  (state.pendingTasks, state.maxConcurrency)

theorem GossipState.load_rehost (state : GossipState) (host? : Option String)
    : (state.rehost host?).load = state.load := by
  unfold GossipState.rehost
  split
  next => split <;> rfl
  next => rfl

/-- The state messages of one peer, in the order in which they are handled. -/
def messagesOf (peer : String) (notices : List Notice) : List GossipState :=
  (notices.filterMap Notice.message?).filter (fun state => state.name = peer)

def StaysJoined (peer : String) (notices : List Notice) : Prop :=
  ∀ notice ∈ notices, ∀ node,
    notice.arrival? = some node ∨ notice.departure? = some node → node.name ≠ peer

def NewestLast (peer : String) (notices : List Notice) : Prop :=
  ∀ last, (messagesOf peer notices).getLast? = some last →
    ∀ state ∈ messagesOf peer notices, state.lastUpdated ≤ last.lastUpdated

namespace Manager

variable {m m' : Manager} {notice : Notice} {peer : String}

def loadOf (m : Manager) (peer : String) : Option (Int × Int) :=
  (m.peers.lookup peer).map GossipState.load

theorem Written.nodeID (written : Written m notice m') : m'.nodeID = m.nodeID := by
  cases written with
  | same | message | arrived | left => rfl

theorem Written.lookup_other (written : Written m notice m')
    (silent : ∀ state, notice.message? = some state → state.name ≠ peer)
    (stays : ∀ node, notice.arrival? = some node ∨ notice.departure? = some node →
      node.name ≠ peer)
    : m'.peers.lookup peer = m.peers.lookup peer := by
  cases written with
  | same => rfl
  | message brings => exact AList.lookup_insert_ne (silent _ brings).symm
  | arrived reports => exact AList.lookup_insert_ne (stays _ (.inl reports)).symm
  | left leaves => exact AList.lookup_erase_ne (stays _ (.inr leaves)).symm

theorem Written.loadOf_message (written : Written m notice m') {state : GossipState}
    (brings : notice.message? = some state) (remote : state.name ≠ m.nodeID)
    : m'.loadOf state.name = some state.load := by
  cases written with
  | same ignored => exact absurd (ignored state brings) remote
  | message brings' =>
      obtain rfl := Option.some.inj (brings.symm.trans brings')
      simp [loadOf, GossipState.load_rehost]
  | arrived reports =>
      cases notice <;> simp [Notice.arrival?, Notice.message?] at reports brings
  | left leaves =>
      cases notice <;> simp [Notice.departure?, Notice.message?] at leaves brings

/-- The table has the load of the peer's last message, by induction over the notices from the
last one on.
-/
theorem loadOf_handleAll {notices : List Notice} (remote : peer ≠ m.nodeID)
    (stays : StaysJoined peer notices) {last : GossipState}
    (handled : (messagesOf peer notices).getLast? = some last)
    : (m.handleAll notices).loadOf peer = some last.load := by
  have kept : ∀ notices : List Notice, (m.handleAll notices).nodeID = m.nodeID := by
    intro notices
    induction notices using List.reverseRecOn with
    | nil => rfl
    | append_singleton earlier notice ih =>
        rw [handleAll, List.foldl_append]
        exact (handle_written _ notice).nodeID.trans ih
  induction notices using List.reverseRecOn with
  | nil => cases handled
  | append_singleton earlier notice ih =>
      have written := handle_written (m.handleAll earlier) notice
      have step : m.handleAll (earlier ++ [notice]) = (m.handleAll earlier).handle notice := by
        simp [handleAll]
      rw [step]
      by_cases own : ∃ state, notice.message? = some state ∧ state.name = peer
      · obtain ⟨state, brings, rfl⟩ := own
        have newest : state = last := by
          simpa [messagesOf, brings] using handled
        subst newest
        exact written.loadOf_message brings (by rwa [kept])
      · have silent : ∀ state, notice.message? = some state → state.name ≠ peer :=
          fun state brings same => own ⟨state, brings, same⟩
        have before : messagesOf peer (earlier ++ [notice]) = messagesOf peer earlier := by
          cases brings : notice.message? with
          | none => simp [messagesOf, brings]
          | some state => simp [messagesOf, brings, silent state brings]
        rw [before] at handled
        rw [loadOf, written.lookup_other silent (stays notice (by simp))]
        exact ih (fun notice member => stays notice (by simp [member])) handled

/-- When the newest message of a joined peer is handled last, the table has its load, whatever
else happens in between; so two such orders of the same messages leave the same load.
-/
theorem newest_last_converges (remote : peer ≠ m.nodeID) {notices notices' : List Notice}
    (stays : StaysJoined peer notices) (stays' : StaysJoined peer notices')
    (same : ∀ state, state ∈ messagesOf peer notices' ↔ state ∈ messagesOf peer notices)
    (distinct
      : ∀ left ∈ messagesOf peer notices, ∀ right ∈ messagesOf peer notices,
          left.lastUpdated = right.lastUpdated → left = right)
    {newest : GossipState} (sent : newest ∈ messagesOf peer notices)
    (greatest : ∀ state ∈ messagesOf peer notices, state.lastUpdated ≤ newest.lastUpdated)
    (order : NewestLast peer notices) (order' : NewestLast peer notices')
    : (m.handleAll notices).loadOf peer = some newest.load
      ∧ (m.handleAll notices').loadOf peer = (m.handleAll notices).loadOf peer := by
  have converges : ∀ {delivered : List Notice}, StaysJoined peer delivered →
      (∀ state, state ∈ messagesOf peer delivered ↔ state ∈ messagesOf peer notices) →
      NewestLast peer delivered →
      (m.handleAll delivered).loadOf peer = some newest.load := by
    intro delivered stays same order
    have nonempty : messagesOf peer delivered ≠ [] :=
      List.ne_nil_of_mem ((same newest).mpr sent)
    have last := List.getLast?_eq_some_getLast nonempty
    have member := (same _).mp (List.getLast_mem nonempty)
    have atMost := greatest _ member
    have atLeast := order _ last newest ((same newest).mpr sent)
    rw [loadOf_handleAll remote stays last,
      distinct _ member newest sent (Int.le_antisymm atMost atLeast)]
  have first := converges stays (fun _ => Iff.rfl) order
  exact ⟨first, (converges stays' same order').trans first.symm⟩

def joinedPeer : Manager :=
  notifyJoin { nodeID := "node-a", peers := ∅ }
    { name := "node-b", addr := "10.0.0.2", port := 7946, metadata := .empty } 0

def stateAt (lastUpdated pendingTasks : Int) : GossipState where
  name := "node-b"
  grpcAddress := "0.0.0.0:50051"
  pendingTasks := pendingTasks
  maxConcurrency := 8
  lastUpdated := lastUpdated

/-- In order, with and without a repeated message, the newer load stays. -/
theorem in_order_keeps_newest
    : (joinedPeer.handleAll
          [.notifyMsg (.encoded (stateAt 1 7)), .mergeRemoteState (.encoded (stateAt 1 7)),
            .notifyMsg (.encoded (stateAt 2 0))]).loadOf "node-b" = some (0, 8)
      ∧ (joinedPeer.handleAll
          [.mergeRemoteState (.encoded (stateAt 1 7)),
            .notifyMsg (.encoded (stateAt 2 0))]).loadOf "node-b" = some (0, 8) := by
  let notices : List Notice :=
    [.notifyMsg (.encoded (stateAt 1 7)), .mergeRemoteState (.encoded (stateAt 1 7)),
      .notifyMsg (.encoded (stateAt 2 0))]
  let notices' : List Notice :=
    [.mergeRemoteState (.encoded (stateAt 1 7)), .notifyMsg (.encoded (stateAt 2 0))]
  have messages : messagesOf "node-b" notices = [stateAt 1 7, stateAt 1 7, stateAt 2 0] := rfl
  have messages' : messagesOf "node-b" notices' = [stateAt 1 7, stateAt 2 0] := rfl
  have sent : stateAt 2 0 ∈ messagesOf "node-b" notices := by simp [messages]
  have stays : StaysJoined "node-b" notices := by
    simp [StaysJoined, notices, Notice.arrival?, Notice.departure?]
  have stays' : StaysJoined "node-b" notices' := by
    simp [StaysJoined, notices', Notice.arrival?, Notice.departure?]
  have order : NewestLast "node-b" notices := by
    simp [NewestLast, messages, stateAt]
  have order' : NewestLast "node-b" notices' := by
    simp [NewestLast, messages', stateAt]
  obtain ⟨first, second⟩ := newest_last_converges (m := joinedPeer) (by decide) stays stays'
    (by simp [messages, messages']) (by simp [messages, stateAt]) sent
    (by simp [messages, stateAt]) order order'
  exact ⟨first, second.trans first⟩

/-- The same two messages in the two orders leave different loads: the older one overwrites the
newer.
-/
theorem older_message_overwrites_newer
    : (stateAt 1 7).lastUpdated < (stateAt 2 0).lastUpdated
      ∧ (joinedPeer.handleAll
          [.notifyMsg (.encoded (stateAt 1 7)),
            .notifyMsg (.encoded (stateAt 2 0))]).loadOf "node-b" = some (stateAt 2 0).load
      ∧ (joinedPeer.handleAll
          [.notifyMsg (.encoded (stateAt 2 0)),
            .notifyMsg (.encoded (stateAt 1 7))]).loadOf "node-b" = some (stateAt 1 7).load
      ∧ (stateAt 1 7).load ≠ (stateAt 2 0).load := by
  decide

end Manager

/-- A manager with the nodes that left and have not joined again. -/
structure Membership where
  manager : Manager
  departed : List String

namespace Membership

def step (s : Membership) (notice : Notice) : Option Membership :=
  some
    { manager := s.manager.handle notice
      departed :=
        match notice with
        | .notifyJoin node _ => s.departed.filter (· ≠ node.name)
        | .notifyLeave node => node.name :: s.departed
        | _ => s.departed }

def machine : Lib.Machine Membership Notice where
  initial s := s.manager.peers = ∅ ∧ s.departed = []
  step := step

/-- No state message and no update that decodes is handled for a departed node. -/
def NoLateNews (s : Membership) : Notice → Prop
  | .notifyMsg (.encoded state) | .mergeRemoteState (.encoded state) => state.name ∉ s.departed
  | .notifyUpdate node => node.metadata.unmarshal.isSome = true → node.name ∉ s.departed
  | _ => True

theorem NoLateNews.message {s : Membership} {notice : Notice} (news : NoLateNews s notice)
    {state : GossipState} (brings : notice.message? = some state)
    : state.name ∉ s.departed := by
  cases notice with
  | notifyMsg msg | mergeRemoteState msg =>
      cases msg with
      | encoded other =>
          obtain rfl := Option.some.inj brings
          exact news
      | empty | garbage => cases brings
  | notifyJoin | notifyUpdate | notifyLeave => cases brings

structure Gone (s : Membership) : Prop where
  own : s.manager.peers.lookup s.manager.nodeID = none
  departed : ∀ name ∈ s.departed, s.manager.peers.lookup name = none

theorem lookup_own {m m' : Manager} {notice : Notice} (written : m.Written notice m')
    (own : m.peers.lookup m.nodeID = none)
    : m'.peers.lookup m'.nodeID = none := by
  cases written with
  | same => exact own
  | message _ remote => exact (AList.lookup_insert_ne (Ne.symm remote)).trans own
  | arrived _ _ remote => exact (AList.lookup_insert_ne (Ne.symm remote)).trans own
  | left _ remote => exact (AList.lookup_erase_ne (Ne.symm remote)).trans own

theorem lookup_left {m m' : Manager} {node : Member}
    (written : m.Written (.notifyLeave node) m') (own : m.peers.lookup m.nodeID = none)
    {name : String} (left : name = node.name ∨ m.peers.lookup name = none)
    : m'.peers.lookup name = none := by
  cases written with
  | same _ stays =>
      rcases left with rfl | absent
      · rw [stays node rfl]
        exact own
      · exact absent
  | message brings => cases brings
  | arrived reports => cases reports
  | left leaves =>
      obtain rfl := Option.some.inj leaves
      by_cases same : name = node.name
      · rw [same]
        exact AList.lookup_erase _ _
      · exact (AList.lookup_erase_ne same).trans (left.resolve_left same)

theorem gone_inductive : machine.Inductive NoLateNews Gone where
  start s initial := by
    refine ⟨?_, fun name member => ?_⟩
    · rw [initial.1]
      exact AList.lookup_empty _
    · rw [initial.2] at member
      cases member
  keeps s notice s' gone news taken := by
    obtain rfl := Option.some.inj taken
    have written := s.manager.handle_written notice
    refine ⟨lookup_own written gone.own, fun name member => ?_⟩
    have elsewhere : ∀ {node}, notice.arrival? = some node → node.name ≠ name →
        name ∈ s.departed → (s.manager.handle notice).peers.lookup name = none := by
      intro node reports away left
      rw [written.lookup_other, gone.departed name left]
      · intro state brings same
        exact news.message brings (same ▸ left)
      · rintro other (reports' | leaves)
        · obtain rfl := Option.some.inj (reports.symm.trans reports')
          exact away
        · cases notice <;> simp [Notice.arrival?, Notice.departure?] at reports leaves
    cases notice with
    | notifyJoin node now =>
        obtain ⟨left, away⟩ := List.mem_filter.mp member
        exact elsewhere rfl (Ne.symm (of_decide_eq_true away)) left
    | notifyUpdate node =>
        cases decoded : node.metadata.unmarshal with
        | none =>
            simpa [Manager.handle, Manager.notifyUpdate, decoded] using gone.departed name member
        | some state =>
            exact elsewhere rfl (fun same => news (by simp [decoded]) (same ▸ member)) member
    | notifyLeave node =>
        exact lookup_left written gone.own
          ((List.mem_cons.mp member).imp_right (gone.departed name))
    | notifyMsg msg | mergeRemoteState msg =>
        rw [written.lookup_other, gone.departed name member]
        · intro state brings same
          exact news.message brings (same ▸ member)
        · rintro node (reports | leaves)
          · cases reports
          · cases leaves

/-- While no state message and no update that decodes is handled for a departed node, neither
reader returns an entry for a node between its leave and its next join.
-/
theorem departed_not_selected {s : Membership} (reach : machine.Reachable NoLateNews s)
    {name : String} (departed : name ∈ s.departed)
    : s.manager.getPeerByNodeID name = none
      ∧ ∀ load capacity peer, s.manager.Selects load capacity peer →
          ∃ other, other ≠ name ∧ s.manager.getPeerByNodeID other = some peer := by
  have absent := (gone_inductive.reachable reach).departed name departed
  refine ⟨by simp [Manager.getPeerByNodeID, absent], ?_⟩
  intro load capacity peer selects
  obtain ⟨other, state, found, rfl, -⟩ := selects.entry
  refine ⟨other, ?_, by simp [Manager.getPeerByNodeID, found]⟩
  rintro rfl
  exact nomatch absent.symm.trans found

instance (s : Membership) (notice : Notice) : Decidable (NoLateNews s notice) := by
  unfold NoLateNews
  split <;> infer_instance

def memberB : Member where
  name := "node-b"
  addr := "10.0.0.2"
  port := 7946
  metadata := .encoded (Manager.stateAt 1 0)

def fresh : Membership where
  manager := { nodeID := "node-a", peers := ∅ }
  departed := []

/-- A peer that sent its state, left and is silent since then is not found. -/
theorem silent_departed_not_found
    : ∃ s, machine.Run NoLateNews fresh
          [.notifyJoin memberB 0, .notifyMsg (.encoded (Manager.stateAt 2 1)),
            .notifyLeave memberB] s
        ∧ s.manager.getPeerByNodeID "node-b" = none := by
  obtain ⟨s, run, tested⟩ := Lib.Machine.exists_run_of_execIf machine NoLateNews fresh
    [.notifyJoin memberB 0, .notifyMsg (.encoded (Manager.stateAt 2 1)), .notifyLeave memberB]
    (fun s => "node-b" ∈ s.departed) (by decide)
  have absent := departed_not_selected ⟨fresh, _, ⟨rfl, rfl⟩, run⟩ (of_decide_eq_true tested)
  exact ⟨s, run, absent.1⟩

/-- A state message that arrives after the leave brings the node back for both readers. -/
theorem late_message_revives_departed
    : ∃ s, machine.Run Lib.Machine.anyStep fresh
          [.notifyJoin memberB 0, .notifyLeave memberB,
            .notifyMsg (.encoded (Manager.stateAt 1 0))] s
        ∧ "node-b" ∈ s.departed
        ∧ s.manager.getPeerByNodeID "node-b" = some (Manager.stateAt 1 0).toNodeState
        ∧ s.manager.Selects 1 1 (Manager.stateAt 1 0).toNodeState := by
  obtain ⟨s, run, tested⟩ := Lib.Machine.exists_run_of_exec machine fresh
    [.notifyJoin memberB 0, .notifyLeave memberB,
      .notifyMsg (.encoded (Manager.stateAt 1 0))]
    (fun s => "node-b" ∈ s.departed
      ∧ s.manager.getPeerByNodeID "node-b" = some (Manager.stateAt 1 0).toNodeState
      ∧ selectBestPeer 1 1 (s.manager.peers.entries.map (fun entry => entry.snd.toNodeState))
        = some (Manager.stateAt 1 0).toNodeState) (by decide)
  obtain ⟨departed, found, selected⟩ := of_decide_eq_true tested
  exact ⟨s, run, departed, found, _, .refl _, selected⟩

end Membership

end GoREgo.Cluster
