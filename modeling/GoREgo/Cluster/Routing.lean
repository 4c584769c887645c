import GoREgo.Cluster.Model
import Mathlib.Data.List.TakeWhile

/-! A `WaitExecution` reaches the node that tracks the operation exactly when the node ID in
the operation's name is that node's own. `Execute` on a peer names the operation after the
node that forwarded it.
-/

namespace GoREgo

/-- A stopping element ends `takeWhile`, by induction over what comes before it. -/
theorem takeWhile_append_stop {α : Type} {keep : α → Bool} {stop : α}
    (stops : keep stop = false) (before after : List α)
    : (before ++ stop :: after).takeWhile keep = before.takeWhile keep := by
  induction before with
  | nil => simp [stops]
  | cons head rest ih =>
      rw [List.cons_append, List.takeWhile_cons, List.takeWhile_cons, ih]

theorem UUID.no_colon (uuid : UUID) : ':' ∉ uuid.text.toList := by
  intro member
  exact absurd (List.all_eq_true.mp uuid.chars ':' member) (by decide)

/-- The part of a prefix that a reader of the name takes for the node ID. -/
def readNodeID (nodePrefix : String) : String :=
  String.ofList (nodePrefix.toList.takeWhile (· ≠ ':'))

theorem readNodeID_plain {nodePrefix : String} (plain : ':' ∉ nodePrefix.toList)
    : readNodeID nodePrefix = nodePrefix := by
  have whole : nodePrefix.toList.takeWhile (· ≠ ':') = nodePrefix.toList := by
    apply List.takeWhile_eq_self_iff.mpr
    intro c member
    simp only [ne_eq, decide_not, Bool.not_eq_true', decide_eq_false_iff_not]
    exact fun same => plain (same ▸ member)
  rw [readNodeID, whole, String.ofList_toList]

theorem readNodeID_ne {nodePrefix : String} (colon : ':' ∈ nodePrefix.toList)
    : readNodeID nodePrefix ≠ nodePrefix := by
  intro same
  have whole := congrArg String.toList same
  rw [readNodeID, String.toList_ofList] at whole
  rw [← whole] at colon
  have kept := List.mem_takeWhile_imp colon
  exact absurd kept (by decide)

theorem parseOperationNodeID_operationName {id : String} (nonempty : id.toList ≠ [])
    : parseOperationNodeID (operationName id)
      = if ':' ∈ id.toList then
          (readNodeID id, String.ofList ((id.toList.dropWhile (· ≠ ':')).drop 1))
        else
          ("", id) := by
  have long : 11 < (operationName id).toList.length := by
    have positive := List.length_pos_iff.mpr nonempty
    rw [operationName, String.toList_append, List.length_append]
    exact Nat.lt_add_of_pos_right positive
  have stem : (operationName id).toList.take 11 = "operations/".toList := by
    rw [operationName, String.toList_append]
    exact List.take_left' rfl
  have rest : (operationName id).toList.drop 11 = id.toList := by
    rw [operationName, String.toList_append]
    exact List.drop_left' rfl
  simp only [parseOperationNodeID, long, stem, rest, true_and, if_true, String.ofList_toList,
    readNodeID]

theorem operationID_toList_ne_nil (nodePrefix : String) (uuid : UUID)
    : (operationID nodePrefix uuid).toList ≠ [] := by
  intro empty
  have length := congrArg List.length empty
  rw [operationID_toList, List.length_append, uuid.length_eq, List.length_nil] at length
  omega

theorem parseOperationNodeID_name (nodePrefix : String) (uuid : UUID)
    : (parseOperationNodeID (operationName (operationID nodePrefix uuid))).1
      = readNodeID nodePrefix := by
  rw [parseOperationNodeID_operationName (operationID_toList_ne_nil nodePrefix uuid), readNodeID]
  by_cases bare : nodePrefix = ""
  · have text : (operationID nodePrefix uuid).toList = uuid.text.toList := by
      simp [operationID, bare]
    rw [text, if_neg uuid.no_colon, bare]
    rfl
  · have text : (operationID nodePrefix uuid).toList
        = nodePrefix.toList ++ ':' :: uuid.text.toList := by
      rw [operationID_toList, if_pos bare, List.append_assoc, List.singleton_append]
    rw [text, if_pos (by simp), takeWhile_append_stop (by decide)]
    rfl

theorem parseOperationNodeID_plain {nodePrefix : String} (plain : ':' ∉ nodePrefix.toList)
    (uuid : UUID)
    : parseOperationNodeID (operationName (operationID nodePrefix uuid))
      = (nodePrefix, uuid.text) := by
  refine Prod.ext ?_ ?_
  · rw [parseOperationNodeID_name, readNodeID_plain plain]
  · rw [parseOperationNodeID_operationName (operationID_toList_ne_nil nodePrefix uuid)]
    by_cases bare : nodePrefix = ""
    · have same : operationID nodePrefix uuid = uuid.text := by simp [operationID, bare]
      rw [same, if_neg uuid.no_colon]
    · have text : (operationID nodePrefix uuid).toList
          = nodePrefix.toList ++ ':' :: uuid.text.toList := by
        rw [operationID_toList, if_pos bare, List.append_assoc, List.singleton_append]
      have kept : ∀ c ∈ nodePrefix.toList, decide (c ≠ ':') = true :=
        fun c member => decide_eq_true (fun same => plain (same ▸ member))
      rw [text, if_pos (by simp), List.dropWhile_append_of_pos kept]
      simp

/-- The name that `Enqueue` returns is read back as the prefix that it chose and the UUID exactly
when that prefix has no colon.
-/
theorem enqueued_name_read_back (s : Scheduler.State) (uuid : UUID) (actionDigest : Digest)
    (skipCache : Bool) (nodeIDOverride : String) (now : Int) (receiver : Bool)
    {s' : Scheduler.State} {op : Operation}
    (enqueued : s.enqueue uuid actionDigest skipCache nodeIDOverride now receiver = (s', .ok op))
    : parseOperationNodeID op.name
        = (if nodeIDOverride ≠ "" then nodeIDOverride else s.nodeID, uuid.text)
      ↔ ':' ∉ (if nodeIDOverride ≠ "" then nodeIDOverride else s.nodeID).toList := by
  obtain ⟨-, -, name⟩ := Scheduler.State.enqueue_ok enqueued
  rw [name, Scheduler.Task.name, Scheduler.State.newTask]
  constructor
  · intro readBack colon
    have first := congrArg Prod.fst readBack
    rw [parseOperationNodeID_name] at first
    exact readNodeID_ne colon first
  · exact fun plain => parseOperationNodeID_plain plain uuid

section Samples

open Scheduler

/-- The name of an operation is read back without a node ID, with one, and with another origin. -/
theorem plain_names_read_back
    : (∃ s' op, (newScheduler 100 "").enqueue sampleUUID sampleDigest false "" 0 false
          = (s', .ok op) ∧ parseOperationNodeID op.name = ("", sampleUUID.text))
      ∧ (∃ s' op, (newScheduler 100 "node-a").enqueue sampleUUID sampleDigest false "" 0 false
          = (s', .ok op) ∧ parseOperationNodeID op.name = ("node-a", sampleUUID.text))
      ∧ ∃ s' op, (newScheduler 100 "node-a").enqueue sampleUUID sampleDigest false "node-b" 0 false
          = (s', .ok op) ∧ parseOperationNodeID op.name = ("node-b", sampleUUID.text) := by
  refine ⟨⟨_, _, rfl, ?_⟩, ⟨_, _, rfl, ?_⟩, _, _, rfl, ?_⟩
  · exact (enqueued_name_read_back (newScheduler 100 "") sampleUUID sampleDigest false "" 0 false
      rfl).mpr (by decide)
  · exact (enqueued_name_read_back (newScheduler 100 "node-a") sampleUUID sampleDigest false "" 0
      false rfl).mpr (by decide)
  · exact (enqueued_name_read_back (newScheduler 100 "node-a") sampleUUID sampleDigest false "node-b"
      0 false rfl).mpr (by decide)

/-- A node ID with a port loses the port to the UUID. -/
theorem port_read_as_operation
    : ∃ s' op, (newScheduler 100 "host:7946").enqueue sampleUUID sampleDigest false "" 0 false
        = (s', .ok op)
      ∧ parseOperationNodeID op.name
        = ("host", "7946:00000000-0000-4000-8000-000000000001") := by
  refine ⟨_, _, rfl, ?_⟩
  decide

end Samples

namespace Cluster

open Scheduler Execution

variable {N : Type}

def originNodeID : Request → String
  | .cached _ _ => ""
  | .execute _ _ originNodeID => originNodeID

/-- The node ID that routing reads from the operation's name, from what `Enqueue` was given:
the origin's, or without an origin that of the node itself.
-/
def Created.routedTo (net : Network N) (created : Created N) : String :=
  if originNodeID created.request ≠ "" then
    readNodeID (originNodeID created.request)
  else
    net.nodeID created.node

namespace Nodes

variable {net : Network N} {s s' : Nodes N} {label : Label N}

structure Valid (net : Network N) (s : Nodes N) : Prop where
  nodeIDs : ∀ n, (s.sched n).nodeID = net.nodeID n
  sessions : ∀ n, Session.Valid { sched := s.sched n, issued := s.issued }
  named
    : ∀ created ∈ s.created,
        ∃ uuid ∈ s.issued, ∃ nodePrefix,
          created.name = operationName (operationID nodePrefix uuid)
          ∧ created.routedTo net = readNodeID nodePrefix
  located
    : ∀ {n ref}, ref < (s.sched n).nextOp
      → ∃ created ∈ s.created,
          created.node = n ∧ created.name = ((s.sched n).heap ref).name
  distinct : (s.created.map Created.name).Nodup
  connected : s.Connected net

theorem Valid.node_unique (valid : s.Valid net) {created : Created N} {n : N} {ref : OpRef}
    (member : created ∈ s.created)
    (tracked : (s.sched n).operations.lookup created.name = some ref)
    : created.node = n := by
  have wf := (valid.sessions n).wellFormed
  obtain ⟨other, otherMember, node, name⟩ := valid.located (wf.allocated tracked)
  rw [wf.named tracked] at name
  obtain rfl := List.inj_on_of_nodup_map valid.distinct otherMember member name
  exact node

theorem Valid.more_issued (valid : s.Valid net) (uuid : UUID)
    : Valid net { s with issued := uuid :: s.issued } where
  nodeIDs := valid.nodeIDs
  sessions n := by
    refine ⟨(valid.sessions n).wellFormed, fun ref below => ?_⟩
    obtain ⟨nodePrefix, drawn, member, name⟩ := (valid.sessions n).issued ref below
    exact ⟨nodePrefix, drawn, List.mem_cons_of_mem _ member, name⟩
  named created member := by
    obtain ⟨drawn, issued, rest⟩ := valid.named created member
    exact ⟨drawn, List.mem_cons_of_mem _ issued, rest⟩
  located := valid.located
  distinct := valid.distinct
  connected := valid.connected

section Steps

variable [DecidableEq N]

theorem Valid.call (valid : s.Valid net) {n : N} {session : Session}
    (quiet : Session.Quiet { sched := s.sched n, issued := s.issued } session)
    : Valid net { s with sched := Function.update s.sched n session.sched } := by
  have cases' (m : N)
      : (m = n ∧ Function.update s.sched n session.sched m = session.sched)
        ∨ (m ≠ n ∧ Function.update s.sched n session.sched m = s.sched m) := by
    by_cases same : m = n
    · subst same
      exact Or.inl ⟨rfl, Function.update_self ..⟩
    · exact Or.inr ⟨same, Function.update_of_ne same ..⟩
  refine ⟨?_, ?_, valid.named, ?_, valid.distinct, valid.connected⟩
  · intro m
    dsimp only
    rcases cases' m with ⟨rfl, here⟩ | ⟨_, there⟩
    · rw [here, quiet.nodeID]
      exact valid.nodeIDs m
    · rw [there]
      exact valid.nodeIDs m
  · intro m
    dsimp only
    rcases cases' m with ⟨rfl, here⟩ | ⟨_, there⟩
    · rw [here]
      have after := (valid.sessions m).quiet quiet
      exact ⟨after.wellFormed, quiet.issued ▸ after.issued⟩
    · rw [there]
      exact valid.sessions m
  · intro m ref below
    dsimp only at below ⊢
    rcases cases' m with ⟨rfl, here⟩ | ⟨_, there⟩
    · rw [here, quiet.names]
      rw [here, quiet.nextOp] at below
      exact valid.located below
    · rw [there] at below ⊢
      exact valid.located below

theorem enqueueRequest_eq (request : Request) (sched : State) (uuid : UUID) (now : Int)
    (receiver : Bool)
    : ∃ actionDigest skipCache,
        enqueueRequest request sched uuid now receiver
          = sched.enqueue uuid actionDigest skipCache (originNodeID request) now receiver := by
  cases request with
  | cached actionDigest result => exact ⟨actionDigest, true, rfl⟩
  | execute actionDigest skipCache origin => exact ⟨actionDigest, skipCache, rfl⟩

theorem Valid.execute (valid : s.Valid net) (plain : ∀ n, ':' ∉ (net.nodeID n).toList)
    {uuid : UUID} (fresh : uuid ∉ s.issued) {n : N}
    {request : Request} {now : Int} {receiver : Bool} {sched : State} {op : Operation}
    (enqueued
      : enqueueRequest request (s.sched n) uuid now receiver = (sched, .ok op))
    : Valid net { s with
        sched := Function.update s.sched n sched
        issued := uuid :: s.issued
        created := { node := n, request, name := op.name } :: s.created } := by
  obtain ⟨actionDigest, skipCache, form⟩ :=
    enqueueRequest_eq request (s.sched n) uuid now receiver
  rw [form] at enqueued
  let nodePrefix :=
    if originNodeID request ≠ "" then originNodeID request else (s.sched n).nodeID
  obtain ⟨taskQueue, rfl, name⟩ := State.enqueue_ok enqueued
  have name : op.name = operationName (operationID nodePrefix uuid) := name
  have after := (valid.sessions n).enqueue fresh actionDigest skipCache
    (originNodeID request) now receiver
  rw [enqueued] at after
  have more := valid.more_issued uuid
  refine ⟨?_, ?_, ?_, ?_, ?_, valid.connected⟩
  · intro m
    dsimp only
    by_cases same : m = n
    · subst same
      rw [Function.update_self]
      exact valid.nodeIDs m
    · rw [Function.update_of_ne same]
      exact valid.nodeIDs m
  · intro m
    dsimp only
    by_cases same : m = n
    · subst same
      rw [Function.update_self]
      exact after
    · rw [Function.update_of_ne same]
      exact more.sessions m
  · intro created member
    rcases List.mem_cons.mp member with rfl | older
    · refine ⟨uuid, List.mem_cons_self, nodePrefix, name, ?_⟩
      by_cases origin : originNodeID request = ""
      · simp [Created.routedTo, nodePrefix, origin, valid.nodeIDs n, readNodeID_plain (plain n)]
      · simp [Created.routedTo, nodePrefix, origin]
    · exact more.named created older
  · intro m ref below
    dsimp only at below ⊢
    by_cases same : m = n
    · subst same
      rw [Function.update_self] at below ⊢
      rcases Nat.lt_succ_iff_lt_or_eq.mp below with earlier | rfl
      · obtain ⟨created, member, node, carried⟩ := valid.located earlier
        rw [State.heap_insertStatus_old earlier]
        exact ⟨created, List.mem_cons_of_mem _ member, node, carried⟩
      · refine ⟨_, List.mem_cons_self, rfl, ?_⟩
        rw [State.heap_insertStatus_new]
        exact name
    · rw [Function.update_of_ne same] at below ⊢
      obtain ⟨created, member, node, carried⟩ := valid.located below
      exact ⟨created, List.mem_cons_of_mem _ member, node, carried⟩
  · rw [List.map_cons, List.nodup_cons]
    refine ⟨?_, valid.distinct⟩
    intro member
    obtain ⟨older, olderMember, same⟩ := List.mem_map.mp member
    obtain ⟨drawn, issued, other, olderName, _⟩ := valid.named older olderMember
    have equal := operationID_uuid
      (operationName_injective (olderName.symm.trans (same.trans name)))
    exact fresh (equal ▸ issued)

theorem Connected.gossip (connected : s.Connected net) {n : N} {name : String}
    {peer : NodeState} {pendingTasks maxConcurrency : Int}
    (known : (s.peers n).lookup name = some peer)
    : Connected net { s with
        peers :=
          Function.update s.peers n
            ((s.peers n).insert name { peer with pendingTasks, maxConcurrency }) } := by
  intro m other apart
  obtain ⟨entry, found, dials⟩ := connected m other apart
  dsimp only
  by_cases same : m = n
  · subst same
    rw [Function.update_self]
    by_cases named : net.nodeID other = name
    · refine ⟨{ peer with pendingTasks, maxConcurrency }, ?_, ?_⟩
      · rw [named, AList.lookup_insert]
      · rw [named, known] at found
        obtain rfl := Option.some.inj found
        exact dials
    · refine ⟨entry, ?_, dials⟩
      rwa [AList.lookup_insert_ne named]
  · rw [Function.update_of_ne same]
    exact ⟨entry, found, dials⟩

theorem valid_inductive (plain : ∀ n, ':' ∉ (net.nodeID n).toList)
    : (machine net).Inductive Lib.Machine.anyStep (Valid net) where
  start s initial := by
    obtain ⟨schedulers, issued, created, connected⟩ := initial
    have started (n : N) : (s.sched n).nextOp = 0 ∧ (s.sched n).nodeID = net.nodeID n
        ∧ (s.sched n).WellFormed := by
      obtain ⟨queueSize, new⟩ := schedulers n
      rw [new]
      exact ⟨rfl, rfl, State.newScheduler_wellFormed ..⟩
    refine ⟨fun n => (started n).2.1, fun n => ⟨(started n).2.2, ?_⟩, ?_, ?_, ?_, connected⟩
    · intro ref below
      exact absurd below (by rw [(started n).1]; exact Nat.not_lt_zero ref)
    · intro other member
      rw [created] at member
      cases member
    · intro n ref below
      exact absurd below (by rw [(started n).1]; exact Nat.not_lt_zero ref)
    · rw [created]
      exact List.nodup_nil
  keeps s label s' valid _ taken := by
    have taken : s.step net label = some s' := taken
    cases label with
    | execute n header request cached order connects uuid now receiver =>
        simp only [step] at taken
        split at taken
        next permitted =>
          split at taken
          · obtain rfl := Option.some.inj taken
            exact valid.more_issued uuid
          next enqueued =>
            obtain rfl := Option.some.inj taken
            exact valid.execute plain permitted.1 enqueued
        next => cases taken
    | gossip n name pendingTasks maxConcurrency =>
        simp only [step] at taken
        split at taken
        next => cases taken
        next peer known =>
          obtain rfl := Option.some.inj taken
          exact { valid with connected := valid.connected.gossip known }
    | call n call =>
        by_cases ordinary : ∀ uuid actionDigest skipCache nodeIDOverride now receiver,
            call ≠ .enqueue uuid actionDigest skipCache nodeIDOverride now receiver
        · have taken : (Session.step { sched := s.sched n, issued := s.issued } call).map
              (fun session => { s with sched := Function.update s.sched n session.sched })
              = some s' := by
            cases call <;> first | exact taken | exact (ordinary _ _ _ _ _ _ rfl).elim
          obtain ⟨session, called, rfl⟩ := Option.map_eq_some_iff.mp taken
          exact valid.call (Session.step_quiet called ordinary)
        · simp only [not_forall, not_not] at ordinary
          obtain ⟨uuid, actionDigest, skipCache, nodeIDOverride, now, receiver, rfl⟩ := ordinary
          cases taken

end Steps

/-- A node that answers tracks the operation, and it is the node that was asked or the one
that the name points to. Witness: induction over the hops.
-/
theorem waitExecution_ok {name : String} {hops : Nat} {m n : N} {op : Operation}
    (answered : waitExecution net s name hops m = some (.ok (n, op)))
    : (s.sched n).getOperation name = .ok op
      ∧ ((parseOperationNodeID name).1 = "" → n = m)
      ∧ ((parseOperationNodeID name).1 ≠ "" → net.nodeID n = (parseOperationNodeID name).1) := by
  induction hops generalizing m with
  | zero => cases answered
  | succ hops ih =>
      simp only [waitExecution] at answered
      split at answered
      next remote =>
        split at answered
        · cases answered
        · split at answered
          · cases answered
          · obtain ⟨found, _, pointed⟩ := ih answered
            exact ⟨found, fun empty => (remote.1 empty).elim, pointed⟩
      next here =>
        split at answered
        · cases answered
        next found =>
          cases answered
          refine ⟨found, fun _ => rfl, fun present => ?_⟩
          by_contra apart
          exact here ⟨present, fun same => apart same.symm⟩

theorem waitExecution_here {name : String} {n : N} {op : Operation} {hops : Nat}
    (here : (parseOperationNodeID name).1 = ""
      ∨ (parseOperationNodeID name).1 = net.nodeID n)
    (found : (s.sched n).getOperation name = .ok op)
    : waitExecution net s name (hops + 1) n = some (.ok (n, op)) := by
  have stays : ¬ ((parseOperationNodeID name).1 ≠ ""
      ∧ (parseOperationNodeID name).1 ≠ net.nodeID n) := by
    rintro ⟨present, apart⟩
    exact here.elim present apart
  simp only [waitExecution, if_neg stays, found]

/-- `WaitExecution` at a node is answered, after one forwarding at most, by a node that
tracks the operation.
-/
def Answered (net : Network N) (s : Nodes N) (name : String) (m : N) : Prop :=
  ∃ n op, (s.sched n).getOperation name = .ok op
    ∧ ∀ hops, 2 ≤ hops → waitExecution net s name hops m = some (.ok (n, op))

/-- In every reachable state of a cluster, a tracked operation is found from every node iff
its `Enqueue` named it after the node that tracks it (or after nobody, on a node that is
alone).
-/
theorem answered_iff_routed_home [DecidableEq N] (distinct : Function.Injective net.nodeID)
    (plain : ∀ n, ':' ∉ (net.nodeID n).toList)
    (reach : (machine net).Reachable Lib.Machine.anyStep s) {created : Created N}
    (member : created ∈ s.created)
    (tracked : ((s.sched created.node).operations.lookup created.name).isSome = true)
    : (∀ m, Answered net s created.name m)
      ↔ (created.routedTo net ≠ "" ∧ created.routedTo net = net.nodeID created.node)
        ∨ (created.routedTo net = "" ∧ ∀ m, m = created.node) := by
  have valid := (valid_inductive plain).reachable reach
  obtain ⟨uuid, _, nodePrefix, name, routed⟩ := valid.named created member
  have parsed : (parseOperationNodeID created.name).1 = created.routedTo net := by
    rw [name, parseOperationNodeID_name, routed]
  obtain ⟨ref, tracked⟩ := Option.isSome_iff_exists.mp tracked
  have found : (s.sched created.node).getOperation created.name
      = .ok (State.toProto ((s.sched created.node).heap ref)) := by
    simp [State.getOperation, tracked]
  constructor
  · intro answered
    by_cases empty : created.routedTo net = ""
    · refine Or.inr ⟨empty, fun m => ?_⟩
      obtain ⟨n, op, known, answers⟩ := answered m
      obtain ⟨other, here, _⟩ := State.getOperation_ok known
      have asked := (waitExecution_ok (answers 2 (Nat.le_refl 2))).2.1 (parsed.trans empty)
      rw [← asked, valid.node_unique member here]
    · refine Or.inl ⟨empty, ?_⟩
      obtain ⟨n, op, known, answers⟩ := answered created.node
      obtain ⟨other, here, _⟩ := State.getOperation_ok known
      have pointed := (waitExecution_ok (answers 2 (Nat.le_refl 2))).2.2
        (fun none => empty (parsed.symm.trans none))
      rw [valid.node_unique member here, pointed, parsed]
  · intro home m
    refine ⟨created.node, _, found, fun hops enough => ?_⟩
    obtain ⟨more, rfl⟩ : ∃ more, hops = more + 2 := ⟨hops - 2, by omega⟩
    rcases home with ⟨present, own⟩ | ⟨empty, single⟩
    · by_cases same : m = created.node
      · subst same
        exact waitExecution_here (Or.inr (parsed.trans own)) found
      · obtain ⟨peer, known, dials⟩ := valid.connected m created.node same
        have remote : (parseOperationNodeID created.name).1 ≠ ""
            ∧ (parseOperationNodeID created.name).1 ≠ net.nodeID m := by
          rw [parsed]
          exact ⟨present, fun here => same (distinct (here.symm.trans own))⟩
        rw [waitExecution, if_pos remote, parsed, own, known]
        simp only [dials]
        exact waitExecution_here (Or.inr (parsed.trans own)) found
    · rw [single m]
      exact waitExecution_here (Or.inl (parsed.trans empty)) found

def pairNetwork : Network (Fin 2) where
  nodeID n := if n = 0 then "node-a" else "node-b"
  concurrency _ := 1
  dial address :=
    if address = "host-a:50051" then .ok 0
    else if address = "host-b:50051" then .ok 1
    else .error (.plain "no such host")

def peerA : NodeState :=
  { name := "node-a", grpcAddress := "host-a:50051", pendingTasks := 0, maxConcurrency := 1 }

def peerB : NodeState :=
  { name := "node-b", grpcAddress := "host-b:50051", pendingTasks := 0, maxConcurrency := 1 }

def pair : Nodes (Fin 2) where
  sched n := newScheduler 100 (pairNetwork.nodeID n)
  peers n := if n = 0 then AList.singleton "node-b" peerB else AList.singleton "node-a" peerA
  issued := []
  created := []

theorem pair_initial : (machine pairNetwork).initial pair := by
  refine ⟨fun n => ⟨100, rfl⟩, rfl, rfl, ?_⟩
  intro m n apart
  by_cases first : m = 0
  · have other : n = 1 := by omega
    subst first other
    exact ⟨peerB, by decide, rfl⟩
  · have second : m = 1 := by omega
    have other : n = 0 := by omega
    subst second other
    exact ⟨peerA, by decide, rfl⟩

theorem pairNetwork_distinct : Function.Injective pairNetwork.nodeID := by
  have checked : ∀ m n, pairNetwork.nodeID m = pairNetwork.nodeID n → m = n := by decide
  exact fun m n => checked m n

theorem pairNetwork_plain (n : Fin 2) : ':' ∉ (pairNetwork.nodeID n).toList := by
  revert n
  decide

def executeAtA (uuid : UUID) : Label (Fin 2) :=
  .execute 0 none { actionDigest := sampleDigest, skipCacheLookup := false } (fun _ => none)
    [peerB] true uuid 0 false

/-- An operation that the first node keeps is found from both nodes. -/
theorem local_operation_answered
    : ∃ s created, (machine pairNetwork).Reachable Lib.Machine.anyStep s
        ∧ created ∈ s.created
        ∧ created.name = "operations/node-a:00000000-0000-4000-8000-000000000001"
        ∧ ∀ m, Answered pairNetwork s created.name m := by
  let created : Created (Fin 2) :=
    { node := 0
      request := .execute sampleDigest false ""
      name := "operations/node-a:00000000-0000-4000-8000-000000000001" }
  obtain ⟨s, run, tested⟩ := Lib.Machine.exists_run_of_exec (machine pairNetwork) pair
    [executeAtA sampleUUID]
    (fun s => s.created = [created]
      ∧ ((s.sched created.node).operations.lookup created.name).isSome = true) (by decide)
  simp only [Bool.decide_and, Bool.and_eq_true, decide_eq_true_eq] at tested
  have reach : (machine pairNetwork).Reachable Lib.Machine.anyStep s :=
    ⟨pair, _, pair_initial, run⟩
  have member : created ∈ s.created := by
    rw [tested.1]
    exact List.mem_cons_self
  refine ⟨s, created, reach, member, rfl, ?_⟩
  exact (answered_iff_routed_home pairNetwork_distinct pairNetwork_plain reach member tested.2).mpr
    (Or.inl (by decide))

/-- An operation that the first node forwarded is answered `NotFound` there. -/
theorem forwarded_operation_not_found
    : ¬ ∀ (net : Network (Fin 2)) (s : Nodes (Fin 2)) (created : Created (Fin 2)),
        Function.Injective net.nodeID
        → (∀ n, ':' ∉ (net.nodeID n).toList)
        → (machine net).Reachable Lib.Machine.anyStep s
        → created ∈ s.created
        → ((s.sched created.node).operations.lookup created.name).isSome = true
        → ∀ m, Answered net s created.name m := by
  intro always
  let created : Created (Fin 2) :=
    { node := 1
      request := .execute sampleDigest false "node-a"
      name := "operations/node-a:00000000-0000-4000-8000-000000000002" }
  obtain ⟨s, run, tested⟩ := Lib.Machine.exists_run_of_exec (machine pairNetwork) pair
    [executeAtA sampleUUID, executeAtA otherUUID]
    (fun s => created ∈ s.created
      ∧ ((s.sched created.node).operations.lookup created.name).isSome = true
      ∧ (waitExecution pairNetwork s created.name 2 0).any (·.isOk) = false) (by decide)
  simp only [Bool.decide_and, Bool.and_eq_true, decide_eq_true_eq] at tested
  obtain ⟨member, tracked, refused⟩ := tested
  obtain ⟨n, op, _, answers⟩ := always pairNetwork s created
    pairNetwork_distinct pairNetwork_plain ⟨pair, _, pair_initial, run⟩ member tracked 0
  rw [answers 2 (Nat.le_refl 2)] at refused
  cases refused

end Nodes

end Cluster

end GoREgo
