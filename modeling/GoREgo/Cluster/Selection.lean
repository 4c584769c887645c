import GoREgo.Cluster.Membership
import Mathlib.Algebra.Order.Field.Rat
import Mathlib.Algebra.Order.Field.Basic

/-! `SelectBestPeer` takes a peer of the least load ratio among those with capacity, when that is
below the local ratio, whatever the order in which the map of peers is iterated.
-/

namespace GoREgo.Cluster

def loadRatio (load capacity : Int) : ℚ :=
  (load : ℚ) / (capacity : ℚ)

namespace NodeState

def ratio (peer : NodeState) : ℚ :=
  loadRatio peer.pendingTasks peer.maxConcurrency

def HasCapacity (peer : NodeState) : Prop :=
  peer.pendingTasks < peer.maxConcurrency

instance (peer : NodeState) : Decidable peer.HasCapacity :=
  inferInstanceAs (Decidable (_ < _))

end NodeState

theorem ratioLess_iff {load capacity otherLoad otherCapacity : Int} (positive : 0 < capacity)
    (otherPositive : 0 < otherCapacity)
    : ratioLess load capacity otherLoad otherCapacity = true
      ↔ loadRatio load capacity < loadRatio otherLoad otherCapacity := by
  have first : (0 : ℚ) < capacity := Int.cast_pos.mpr positive
  have second : (0 : ℚ) < otherCapacity := Int.cast_pos.mpr otherPositive
  unfold ratioLess loadRatio
  rw [if_neg (ne_of_gt otherPositive), if_pos otherPositive, div_lt_div_iff₀ first second]
  simp only [decide_eq_true_eq]
  norm_cast

variable {load capacity : Int} {seen order peers : List NodeState}
  {best : Option NodeState × Int × Int} {peer : NodeState}

/-- What the loop holds after some peers: the local node, or a peer with capacity that is better
than the local node, and no peer with capacity that it saw is better.
-/
structure Best (load capacity : Int) (seen : List NodeState) (best : Option NodeState × Int × Int)
    : Prop where
  positive : 0 < best.2.2
  held : best.1 = none ∧ best.2 = (load, capacity)
    ∨ ∃ peer ∈ seen, best.1 = some peer ∧ best.2 = (peer.pendingTasks, peer.maxConcurrency)
      ∧ peer.HasCapacity ∧ peer.ratio < loadRatio load capacity
  least : ∀ peer ∈ seen, peer.HasCapacity → loadRatio best.2.1 best.2.2 ≤ peer.ratio

theorem Best.start (positive : 0 < capacity) : Best load capacity [] (none, load, capacity) :=
  ⟨positive, .inl ⟨rfl, rfl⟩, fun _ => nofun⟩

theorem Best.le_local (holds : Best load capacity seen best)
    : loadRatio best.2.1 best.2.2 ≤ loadRatio load capacity := by
  rcases holds.held with ⟨-, same⟩ | ⟨peer, -, -, same, -, below⟩
  · rw [same]
  · rw [same]
    exact le_of_lt below

theorem Best.next (holds : Best load capacity seen best) (counts : 0 ≤ peer.pendingTasks)
    : Best load capacity (seen ++ [peer]) (betterPeer best peer) := by
  unfold betterPeer
  split
  next better =>
    obtain ⟨room, less⟩ := better
    have positive : 0 < peer.maxConcurrency := lt_of_le_of_lt counts room
    have below : peer.ratio < loadRatio best.2.1 best.2.2 :=
      (ratioLess_iff positive holds.positive).mp less
    refine ⟨positive, .inr ⟨peer, by simp, rfl, rfl, room, ?_⟩, ?_⟩
    · exact lt_of_lt_of_le below holds.le_local
    · intro other member otherRoom
      rcases List.mem_append.mp member with earlier | last
      · exact le_of_lt (lt_of_lt_of_le below (holds.least other earlier otherRoom))
      · rw [List.mem_singleton.mp last]
        exact le_refl _
  next worse =>
    refine ⟨holds.positive, ?_, ?_⟩
    · refine holds.held.imp_right ?_
      rintro ⟨other, member, rest⟩
      exact ⟨other, List.mem_append_left _ member, rest⟩
    · intro other member otherRoom
      rcases List.mem_append.mp member with earlier | last
      · exact holds.least other earlier otherRoom
      · obtain rfl := List.mem_singleton.mp last
        have positive : 0 < other.maxConcurrency := lt_of_le_of_lt counts otherRoom
        refine not_lt.mp (fun below => worse ⟨otherRoom, ?_⟩)
        exact (ratioLess_iff positive holds.positive).mpr below

theorem Best.loop (holds : Best load capacity seen best)
    (counts : ∀ peer ∈ order, 0 ≤ peer.pendingTasks)
    : Best load capacity (seen ++ order) (order.foldl betterPeer best) := by
  induction order generalizing seen best with
  | nil => simpa using holds
  | cons peer rest ih =>
      have after := ih (holds.next (counts peer List.mem_cons_self))
        (fun other member => counts other (List.mem_cons_of_mem _ member))
      rwa [List.append_assoc, List.singleton_append] at after

theorem selectBestPeer_best (positive : 0 < capacity)
    (counts : ∀ peer ∈ order, 0 ≤ peer.pendingTasks)
    : (selectBestPeer load capacity order = none
        ∧ ∀ peer ∈ order, peer.HasCapacity → loadRatio load capacity ≤ peer.ratio)
      ∨ ∃ best ∈ order, selectBestPeer load capacity order = some best ∧ best.HasCapacity
        ∧ best.ratio < loadRatio load capacity
        ∧ ∀ peer ∈ order, peer.HasCapacity → best.ratio ≤ peer.ratio := by
  have ended := (Best.start positive : Best load capacity [] _).loop counts
  rw [List.nil_append] at ended
  rcases ended.held with ⟨none_, same⟩ | ⟨best, member, some_, same, room, below⟩
  · refine .inl ⟨none_, fun peer listed peerRoom => ?_⟩
    have least := ended.least peer listed peerRoom
    rwa [same] at least
  · refine .inr ⟨best, member, some_, room, below, fun peer listed peerRoom => ?_⟩
    have least := ended.least peer listed peerRoom
    rwa [same] at least

namespace Manager

def table (m : Manager) : List NodeState :=
  m.peers.entries.map (fun entry => entry.snd.toNodeState)

/-- `SelectBestPeer`, with the peers in the order in which the map is iterated. Without a load
provider the local load is zero. The last test prefers a local node that has capacity.
-/
def selectBestPeer (loadProvider : Option Int) (concurrency : Int) (order : List NodeState)
    : Option NodeState :=
  let localLoad := loadProvider.getD 0
  let localHasCapacity := decide (localLoad < concurrency)
  let bestPeer := (order.foldl betterPeer (none, localLoad, concurrency)).1
  if localHasCapacity && bestPeer.isNone then none else bestPeer

theorem selectBestPeer_eq (loadProvider : Option Int) (concurrency : Int) (order : List NodeState)
    : selectBestPeer loadProvider concurrency order
      = Cluster.selectBestPeer (loadProvider.getD 0) concurrency order := by
  unfold selectBestPeer Cluster.selectBestPeer
  dsimp only
  split
  next preferred =>
    rw [Bool.and_eq_true, Option.isNone_iff_eq_none] at preferred
    exact preferred.2.symm
  next => rfl

/-- `SelectBestPeer` returns no peer exactly when no peer with capacity has a ratio below the local
one. Otherwise it returns a peer of the least ratio among those with capacity, and that ratio does
not depend on the order of the map.
-/
theorem selectBestPeer_least (m : Manager) (loadProvider : Option Int) (concurrency : Int)
    (positive : 0 < concurrency) (counts : ∀ peer ∈ m.table, 0 ≤ peer.pendingTasks)
    (perm : order.Perm m.table)
    : (selectBestPeer loadProvider concurrency order = none
        ↔ ¬ ∃ peer ∈ m.table, peer.HasCapacity
          ∧ peer.ratio < loadRatio (loadProvider.getD 0) concurrency)
      ∧ (∀ best, selectBestPeer loadProvider concurrency order = some best →
          best ∈ m.table ∧ best.HasCapacity
          ∧ best.ratio < loadRatio (loadProvider.getD 0) concurrency
          ∧ ∀ peer ∈ m.table, peer.HasCapacity → best.ratio ≤ peer.ratio)
      ∧ ∀ other, other.Perm m.table →
          (selectBestPeer loadProvider concurrency other).map NodeState.ratio
            = (selectBestPeer loadProvider concurrency order).map NodeState.ratio := by
  -- the outcome for an order, in terms of the table
  have outcome : ∀ order, order.Perm m.table →
      (selectBestPeer loadProvider concurrency order = none
        ∧ ∀ peer ∈ m.table, peer.HasCapacity →
          loadRatio (loadProvider.getD 0) concurrency ≤ peer.ratio)
      ∨ ∃ best ∈ m.table, selectBestPeer loadProvider concurrency order = some best
        ∧ best.HasCapacity ∧ best.ratio < loadRatio (loadProvider.getD 0) concurrency
        ∧ ∀ peer ∈ m.table, peer.HasCapacity → best.ratio ≤ peer.ratio := by
    intro order perm
    rw [selectBestPeer_eq]
    have listed : ∀ peer ∈ order, 0 ≤ peer.pendingTasks :=
      fun peer member => counts peer (perm.mem_iff.mp member)
    simpa only [perm.mem_iff] using selectBestPeer_best positive listed
  refine ⟨?_, ?_, ?_⟩
  · rcases outcome order perm with ⟨none_, least⟩ | ⟨best, member, some_, room, below, -⟩
    · refine iff_of_true none_ ?_
      rintro ⟨peer, listed, room, below⟩
      exact absurd below (not_lt.mpr (least peer listed room))
    · refine iff_of_false ?_ (fun none_ => none_ ⟨best, member, room, below⟩)
      rw [some_]
      nofun
  · intro best selected
    rcases outcome order perm with ⟨none_, -⟩ | ⟨found, member, some_, rest⟩
    · rw [none_] at selected
      cases selected
    · obtain rfl := Option.some.inj (some_.symm.trans selected)
      exact ⟨member, rest⟩
  · intro other otherPerm
    rcases outcome order perm with ⟨none_, least⟩ | ⟨best, member, some_, room, below, least⟩
    · rcases outcome other otherPerm with ⟨otherNone, -⟩ | ⟨found, listed, -, foundRoom, less, -⟩
      · rw [none_, otherNone]
      · exact absurd less (not_lt.mpr (least found listed foundRoom))
    · rcases outcome other otherPerm with ⟨-, none_⟩ | ⟨found, listed, foundSome, foundRoom, -, also⟩
      · exact absurd below (not_lt.mpr (none_ best member room))
      · rw [some_, foundSome, Option.map_some, Option.map_some]
        exact congrArg some (le_antisymm (also best member room) (least found listed foundRoom))

def peerState (name : String) (pendingTasks maxConcurrency : Int) : GossipState where
  name := name
  grpcAddress := name ++ ":50051"
  pendingTasks := pendingTasks
  maxConcurrency := maxConcurrency
  lastUpdated := 0

def threePeers : Manager where
  nodeID := "node-a"
  peers :=
    (((∅ : AList (fun _ : String => GossipState)).insert "node-b" (peerState "node-b" 2 2)).insert
      "node-c" (peerState "node-c" 1 4)).insert "node-d" (peerState "node-d" 2 8)

/-- From a local node with half of its capacity taken, either of the two equal peers is chosen,
depending on the order, with the same ratio.
-/
theorem threePeers_least
    : (selectBestPeer (some 2) 4 threePeers.table).map NodeState.name = some "node-d"
      ∧ (selectBestPeer (some 2) 4 threePeers.table.reverse).map NodeState.name = some "node-c"
      ∧ (selectBestPeer (some 2) 4 threePeers.table.reverse).map NodeState.ratio
        = (selectBestPeer (some 2) 4 threePeers.table).map NodeState.ratio := by
  refine ⟨by decide, by decide, ?_⟩
  have least := selectBestPeer_least threePeers (some 2) 4 (by decide) (by decide)
    (List.Perm.refl _)
  exact least.2.2 _ (List.reverse_perm _)

end Manager

end GoREgo.Cluster
