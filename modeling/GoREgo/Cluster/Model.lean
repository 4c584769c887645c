import GoREgo.Execution.System
import GoREgo.Scheduler.Calls

/-! A cluster of execution servers: which node an `Execute` call ends up on, under which
prefix its operation is named, and where a `WaitExecution` for that name is routed.
-/

namespace GoREgo

/-- `ParseOperationNodeID`: the node ID before the first colon of an operation name, and
the rest of the name.
-/
def parseOperationNodeID (operationName : String) : String × String :=
  let chars := operationName.toList
  let name :=
    if 11 < chars.length ∧ chars.take 11 = "operations/".toList then chars.drop 11 else chars
  if ':' ∈ name then
    (String.ofList (name.takeWhile (· ≠ ':')),
      String.ofList ((name.dropWhile (· ≠ ':')).drop 1))
  else
    ("", String.ofList name)

namespace Cluster

open Scheduler Execution

structure NodeState where
  name : String
  grpcAddress : String
  pendingTasks : Int
  maxConcurrency : Int
deriving DecidableEq, Repr

/-- Whether the load ratio of a peer with capacity is below another ratio. A quotient by
zero is infinite or not a number, as for floats.
-/
def ratioLess (load capacity otherLoad otherCapacity : Int) : Bool :=
  if otherCapacity = 0 then
    0 < otherLoad
  else if 0 < otherCapacity then
    load * otherCapacity < otherLoad * capacity
  else
    otherLoad * capacity < load * otherCapacity

/-- One turn of the loop of `SelectBestPeer`: the best peer so far, its load and capacity. -/
def betterPeer (best : Option NodeState × Int × Int) (peer : NodeState)
    : Option NodeState × Int × Int :=
  if peer.pendingTasks < peer.maxConcurrency
      ∧ ratioLess peer.pendingTasks peer.maxConcurrency best.2.1 best.2.2 = true then
    (some peer, peer.pendingTasks, peer.maxConcurrency)
  else
    best

/-- `SelectBestPeer`, over the peers in the order in which the map is iterated. -/
def selectBestPeer (localLoad localCapacity : Int) (order : List NodeState)
    : Option NodeState :=
  (order.foldl betterPeer (none, localLoad, localCapacity)).1

/-- What does not change while a cluster runs: the nodes' identifiers and worker counts, and
the node behind a gRPC address.
-/
structure Network (N : Type) where
  nodeID : N → String
  concurrency : N → Int
  dial : String → Except GoError N

/-- An operation that an `Execute` call created: the node that tracks it, the `Enqueue` that
made it, and the name streamed to the client.
-/
structure Created (N : Type) where
  node : N
  request : Request
  name : String
deriving DecidableEq

structure Nodes (N : Type) where
  sched : N → State
  peers : N → AList (fun _ : String => NodeState)
  issued : List UUID
  created : List (Created N)

/-- The fields of an `ExecuteRequest` that the server reads. -/
structure ExecuteRequest where
  actionDigest : Digest
  skipCacheLookup : Bool
deriving DecidableEq, Repr

section Routing

variable {N : Type}

/-- `Execute` at one node: a result in its action cache, then a request that was already
forwarded, then what forwarding came to, then local execution.
-/
def serve (request : ExecuteRequest) (cached : N → Option ActionResult) (n : N)
    (header : Option String) (forwarded : Option (N × Request))
    : N × Request :=
  match if request.skipCacheLookup then none else cached n with
  | some result => (n, .cached request.actionDigest result)
  | none =>
      match header, forwarded with
      | some originNodeID, _ =>
          (n, .execute request.actionDigest request.skipCacheLookup originNodeID)
      | none, some placed => placed
      | none, none => (n, .execute request.actionDigest request.skipCacheLookup "")

/-- `Execute` with its forwarding: the node that enqueues and the `Enqueue` it makes. The
peer sees the sender's ID in the header; when the peer is not reached, the node executes
locally.
-/
def execute (net : Network N) (s : Nodes N) (request : ExecuteRequest)
    (cached : N → Option ActionResult) (order : List NodeState) (connects : Bool) (n : N)
    (header : Option String)
    : N × Request :=
  serve request cached n header
    (match selectBestPeer (s.sched n).getPendingTaskCount (net.concurrency n) order with
    | none => none
    | some peer =>
        match net.dial peer.grpcAddress, connects with
        | .ok peerNode, true =>
            some (serve request cached peerNode (some (net.nodeID n)) none)
        | _, _ => none)

def enqueueRequest (request : Request) (sched : State) (uuid : UUID) (now : Int)
    (receiver : Bool)
    : State × Except GoError Operation :=
  match request with
  | .cached actionDigest _ => sched.enqueue uuid actionDigest true "" now receiver
  | .execute actionDigest skipCacheLookup originNodeID =>
      sched.enqueue uuid actionDigest skipCacheLookup originNodeID now receiver

/-- `WaitExecution` up to its first look at the operation: the node that answers with the
operation it tracks, an error, or nothing when the hops run out.
-/
def waitExecution (net : Network N) (s : Nodes N) (name : String)
    : Nat → N → Option (Except GoError (N × Operation))
  | 0, _ => none
  | hops + 1, n =>
      let nodeID := (parseOperationNodeID name).1
      if nodeID ≠ "" ∧ nodeID ≠ net.nodeID n then
        match (s.peers n).lookup nodeID with
        | none =>
            some (.error (.status .notFound ("node " ++ nodeID ++ " not found in cluster")))
        | some peer =>
            match net.dial peer.grpcAddress with
            | .error err =>
                some (.error (.status .unavailable
                  ("failed to connect to node " ++ peer.name ++ ": " ++ err.text)))
            | .ok peerNode => waitExecution net s name hops peerNode
      else
        match (s.sched n).getOperation name with
        | .error err => some (.error err)
        | .ok op => some (.ok (n, op))

end Routing

/-- One step: an `Execute` call with what its environment decides, news of a peer's load, or
a call at one node's scheduler.
-/
inductive Label (N : Type)
  | execute (n : N) (header : Option String) (request : ExecuteRequest)
    (cached : N → Option ActionResult) (order : List NodeState) (connects : Bool)
    (uuid : UUID) (now : Int) (receiver : Bool)
  | gossip (n : N) (name : String) (pendingTasks maxConcurrency : Int)
  | call (n : N) (call : Call)

def peerStates (peers : AList (fun _ : String => NodeState)) : List NodeState :=
  peers.entries.map Sigma.snd

namespace Nodes

variable {N : Type} [DecidableEq N]

/-- The effect of a step. Operations are only created by `Execute` calls. -/
def step (net : Network N) (s : Nodes N) : Label N → Option (Nodes N)
  | .execute n header request cached order connects uuid now receiver =>
      if uuid ∉ s.issued ∧ order.Perm (peerStates (s.peers n)) then
        let placed := Cluster.execute net s request cached order connects n header
        match enqueueRequest placed.2 (s.sched placed.1) uuid now receiver with
        | (_, .error _) => some { s with issued := uuid :: s.issued }
        | (sched, .ok op) =>
            some { s with
              sched := Function.update s.sched placed.1 sched
              issued := uuid :: s.issued
              created := { node := placed.1, request := placed.2, name := op.name } :: s.created }
      else
        none
  | .gossip n name pendingTasks maxConcurrency =>
      match (s.peers n).lookup name with
      | none => none
      | some peer =>
          some { s with
            peers :=
              Function.update s.peers n
                ((s.peers n).insert name { peer with pendingTasks, maxConcurrency }) }
  | .call _ (.enqueue ..) => none
  | .call n call =>
      (Session.step { sched := s.sched n, issued := s.issued } call).map (fun session =>
        { s with sched := Function.update s.sched n session.sched })

def Connected (net : Network N) (s : Nodes N) : Prop :=
  ∀ m n, m ≠ n
    → ∃ peer, (s.peers m).lookup (net.nodeID n) = some peer
        ∧ net.dial peer.grpcAddress = .ok n

/-- A cluster starts with new schedulers under the nodes' own IDs and full peer tables. -/
def machine (net : Network N) : Lib.Machine (Nodes N) (Label N) where
  initial s :=
    (∀ n, ∃ queueSize, s.sched n = newScheduler queueSize (net.nodeID n))
    ∧ s.issued = [] ∧ s.created = [] ∧ s.Connected net
  step := step net

end Nodes

end Cluster

end GoREgo
