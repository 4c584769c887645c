import GoREgo.Cluster.Model

/-! `Execute` across a cluster, call by call. A call looks into the action cache of its node,
selects a peer, is forwarded or goes to the local scheduler, and streams what its own handler
or the peer's call sends. Every node runs its execution service meanwhile, peer tables change
at will, and connections fail at any point.
-/

namespace GoREgo.Cluster

open Scheduler Execution

/-- Where an `Execute` call stands. From its `Enqueue` on, its handler at the node's service
goes on for it; a forwarded call proxies the stream of the call it made at the peer.
-/
inductive CallPc (C : Type)
  | lookup
  | routing
  | connecting (peer : NodeState)
  | forwarding (peer : NodeState)
  | enqueueing (request : Request)
  | serving (request : Request)
  | relaying (peerCall : C)
  | relayed (peerCall : C) (outcome : Option GoError)
deriving DecidableEq

/-- An `Execute` call at one node, with the value of the forwarded-from header and the messages
it proxied to its caller. `origin` is the client's call that it is made for.
-/
structure ExecuteCall (N C : Type) where
  node : N
  header : Option String
  request : ExecuteRequest
  origin : C
  pc : CallPc C
  proxied : List Operation
deriving DecidableEq

namespace ExecuteCall

variable {N C : Type}

def new (node : N) (header : Option String) (request : ExecuteRequest) (origin : C)
    : ExecuteCall N C where
  node := node
  header := header
  request := request
  origin := origin
  pc := .lookup
  proxied := []

/-- After the look into the action cache, which `skip_cache_lookup` leaves out. -/
def afterLookup (call : ExecuteCall N C) (found : Option ActionResult) : CallPc C :=
  match if call.request.skipCacheLookup then none else found with
  | some result => .enqueueing (.cached call.request.actionDigest result)
  | none => .routing

/-- The local path of `Execute`, which `executeLocally` repeats: the operation is named after
the node in the header, if there is one.
-/
def executeLocally (call : ExecuteCall N C) : CallPc C :=
  .enqueueing
    (.execute call.request.actionDigest call.request.skipCacheLookup (call.header.getD ""))

end ExecuteCall

/-- A cluster with its calls. The handlers of a node's service are those of its `Execute` calls
and those of its `WaitExecution` calls. A node without a cluster manager has no peer table.
`enqueued` lists the calls that called `Enqueue`, the latest first.
-/
structure Forwarding (N C W K : Type) where
  services : N → System W (C ⊕ K)
  peers : N → Option (AList (fun _ : String => NodeState))
  calls : C → Option (ExecuteCall N C)
  enqueued : List C

/-- One step. The environment decides what the action cache has, in which order the peer map is
iterated, what fails, when messages arrive and when peers' states change.
-/
inductive Event (N C W K : Type)
  | execute (c : C) (n : N) (header : Option String) (request : ExecuteRequest)
  | getActionResult (c : C) (found : Option ActionResult)
  | selectBestPeer (c : C) (order : List NodeState)
  | getOrCreateConn (c : C) (failure : Option GoError)
  | clientExecute (c : C) (outcome : Except GoError C)
  | enqueue (c : C) (uuid : UUID) (now : Int) (waiting : Option W)
  | proxy (c : C) (sendError : Option GoError)
  | recvEnd (c : C) (outcome : Option GoError)
  | gossip (n : N) (peers : AList (fun _ : String => NodeState))
  | service (n : N) (label : Execution.Label W (C ⊕ K))

/-- The steps of a service apart from `Execute` calls, which arrive as calls of the cluster. -/
def ownStep {C W K : Type} : Execution.Label W (C ⊕ K) → Bool
  | .enqueue _ _ _ _ _ => false
  | .handler (.inl _) (.waitExecution _) => false
  | _ => true

namespace Forwarding

variable {N C W K : Type}

def stream (s : Forwarding N C W K) (c : C) : List Operation :=
  match s.calls c with
  | none => []
  | some call =>
      match call.pc with
      | .serving _ => ((s.services call.node).handlers (.inl c)).sent
      | _ => call.proxied

def outcome? (s : Forwarding N C W K) (c : C) : Option (Option GoError) :=
  match s.calls c with
  | none => none
  | some call =>
      match call.pc with
      | .serving _ =>
          match ((s.services call.node).handlers (.inl c)).pc with
          | .returned outcome => some outcome
          | _ => none
      | .relayed _ outcome => some outcome
      | _ => none

variable [DecidableEq N] [DecidableEq C] [DecidableEq W] [DecidableEq K]

def setCall (s : Forwarding N C W K) (c : C) (call : ExecuteCall N C) : Forwarding N C W K :=
  { s with calls := Function.update s.calls c (some call) }

def step (net : Network N) (s : Forwarding N C W K)
    : Event N C W K → Option (Forwarding N C W K)
  | .execute c n header request =>
      match s.calls c with
      | some _ => none
      | none => some (s.setCall c (.new n header request c))
  | .getActionResult c found => do
      let call ← s.calls c
      match call.pc with
      | .lookup => some (s.setCall c { call with pc := call.afterLookup found })
      | _ => none
  | .selectBestPeer c order => do
      let call ← s.calls c
      match call.pc with
      | .routing =>
          match call.header, s.peers call.node with
          | none, some peers =>
              if order.Perm (peerStates peers) then
                match
                  Cluster.selectBestPeer (s.services call.node).sched.getPendingTaskCount
                    (net.concurrency call.node) order
                with
                | some peer => some (s.setCall c { call with pc := .connecting peer })
                | none => some (s.setCall c { call with pc := call.executeLocally })
              else
                none
          | _, _ => some (s.setCall c { call with pc := call.executeLocally })
      | _ => none
  | .getOrCreateConn c failure => do
      let call ← s.calls c
      match call.pc, failure with
      | .connecting peer, none => some (s.setCall c { call with pc := .forwarding peer })
      | .connecting _, some _ => some (s.setCall c { call with pc := call.executeLocally })
      | _, _ => none
  | .clientExecute c outcome => do
      let call ← s.calls c
      match call.pc, outcome with
      | .forwarding _, .error _ => some (s.setCall c { call with pc := call.executeLocally })
      | .forwarding peer, .ok peerCall =>
          match net.dial peer.grpcAddress, s.calls peerCall with
          | .ok peerNode, none =>
              some
                ((s.setCall c { call with pc := .relaying peerCall }).setCall peerCall
                  (.new peerNode (some (net.nodeID call.node)) call.request call.origin))
          | _, _ => none
      | _, _ => none
  | .enqueue c uuid now waiting => do
      let call ← s.calls c
      match call.pc with
      | .enqueueing request =>
          let service ← (s.services call.node).step (.enqueue (.inl c) request uuid now waiting)
          some { s.setCall c { call with pc := .serving request } with
            services := Function.update s.services call.node service
            enqueued := c :: s.enqueued }
      | _ => none
  | .proxy c sendError => do
      let call ← s.calls c
      match call.pc with
      | .relaying peerCall =>
          let op ← (s.stream peerCall)[call.proxied.length]?
          match sendError with
          | none => some (s.setCall c { call with proxied := call.proxied ++ [op] })
          | some err => some (s.setCall c { call with pc := .relayed peerCall (some err) })
      | _ => none
  | .recvEnd c outcome => do
      let call ← s.calls c
      match call.pc with
      | .relaying peerCall =>
          -- the end of the stream comes after its last message, an error at any time
          if outcome = none
              → s.outcome? peerCall = some none
                ∧ call.proxied.length = (s.stream peerCall).length then
            some (s.setCall c { call with pc := .relayed peerCall outcome })
          else
            none
      | _ => none
  | .gossip n peers =>
      match s.peers n with
      | none => none
      | some _ => some { s with peers := Function.update s.peers n (some peers) }
  | .service n label =>
      if ownStep label then
        ((s.services n).step label).map (fun service =>
          { s with services := Function.update s.services n service })
      else
        none

/-- A cluster starts with new services under the nodes' own IDs, any peer tables and no call. -/
def machine (net : Network N) : Lib.Machine (Forwarding N C W K) (Event N C W K) where
  initial s :=
    (∀ n, ∃ queueSize, s.services n = System.new queueSize (net.nodeID n))
    ∧ (∀ c, s.calls c = none) ∧ s.enqueued = []
  step := step net

end Forwarding

end GoREgo.Cluster
