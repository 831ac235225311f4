import Mathlib.Order.Fin.Basic
import Alpine.Lib.Locks
import Alpine.RestBridge.ClusterDedup

/-!
# The locks of the cluster coordinator

Each call of `ClusterCoordinator` with the sections it has under the lock of the node table and
under those of the shards, and what it reads and changes in them.

The locks are taken in one order, nodes before shards, since no entry of the index is of another
node. `shouldRedirect` and `handleClusterResults` take the lock of the node table a second time, for
the timeout, so they must not come that far (`IsFine`, `along_ordered_iff`).
-/

namespace Alpine

open Lib

inductive ClusterLock where
  | nodes
  | shard (i : Fin DEDUP_SHARD_COUNT)
  deriving DecidableEq

/-- The times are those at which a call looks at the clock. -/
inductive ClusterCall where
  | getClusterNodes
  | isDuplicateQuery (now : Nat) (queryHash : String)
  | shouldRedirect
  /-- Whether `getQueryResults2` knows the query. -/
  | handleClusterResults (now queryId : Nat) (known : Bool)
  | handleClusterHeartbeat (now : Nat) (h : Heartbeat)
  | registerActiveQuery (now wallClockMs : Nat) (queryHash : String) (queryId : Nat)
  | evictStaleNodes (now : Nat)
  | checkSplitBrain (now : Nat)
  /-- The answers that come in time. -/
  | broadcastHeartbeat (rttResults : List (String × ℚ≥0))

abbrev ClusterCode := LockCode ClusterLock ClusterCoordinator

namespace ClusterCode

open ClusterCoordinator LockCode

/-- Shards that are read one after the other. -/
def readShards (shards : List (Fin DEDUP_SHARD_COUNT)) (next : ClusterCode) : ClusterCode :=
  shards.foldr (fun i => locked .read (.shard i) id) next

def computeAdaptiveTimeoutSec (next : Nat → ClusterCode) : ClusterCode :=
  reading .nodes fun c => next (ClusterCoordinator.computeAdaptiveTimeoutSec c.nodes)

def getLocalNodeInfo (next : ClusterCode) : ClusterCode :=
  readShards (List.finRange DEDUP_SHARD_COUNT) next

def getClusterNodes : ClusterCode :=
  .acquire .read .nodes fun _ => getLocalNodeInfo (.release .nodes id .done)

def shouldRedirect : ClusterCode :=
  getLocalNodeInfo (.acquire .read .nodes fun c =>
    if c.nodes.keys = [] then .release .nodes id .done
    else computeAdaptiveTimeoutSec fun _ => .release .nodes id .done)

def handleClusterHeartbeat (now : Nat) (h : Heartbeat) : ClusterCode :=
  locked .write .nodes (·.handleClusterHeartbeat now h) .done

/-- What is evicted from one shard. -/
def evictShard (now : Nat) (i : Fin DEDUP_SHARD_COUNT) (c : ClusterCoordinator) :
    ClusterCoordinator :=
  { c with
    dedupShards := fun j =>
      if j = i then (c.dedupShards j).keep fun entry =>
        elapsedSec now entry.registeredAt ≤ DEDUP_WINDOW_SEC
      else c.dedupShards j }

def evictShards (now : Nat) (shards : List (Fin DEDUP_SHARD_COUNT)) (next : ClusterCode) :
    ClusterCode :=
  shards.foldr (fun i => locked .write (.shard i) (evictShard now i)) next

def evictStaleNodes (now : Nat) : ClusterCode :=
  computeAdaptiveTimeoutSec fun timeoutSec =>
    .acquire .write .nodes fun _ =>
      evictShards now (List.finRange DEDUP_SHARD_COUNT)
        (.release .nodes (fun c => { c with nodes := c.nodes.keep (isLive timeoutSec now) }) .done)

/-- The flag is not under a lock; it is set before the lock is given back. -/
def checkSplitBrain (now : Nat) : ClusterCode :=
  computeAdaptiveTimeoutSec fun timeoutSec =>
    .acquire .read .nodes fun c =>
      let unreachable := c.nodes.countBy fun _ node =>
        decide (elapsedSec now node.lastHeartbeat > timeoutSec * SPLIT_BRAIN_MULTIPLIER)
      .release .nodes
        (fun c' => { c' with
          isolated := c.nodes.keys ≠ [] && decide (2 * unreachable > c.nodes.keys.length) })
        .done

/-- The hashes are read after the local node's numbers, and the table after both. -/
def broadcastHeartbeat (rttResults : List (String × ℚ≥0)) : ClusterCode :=
  getLocalNodeInfo (readShards (List.finRange DEDUP_SHARD_COUNT) (reading .nodes fun c =>
    if c.nodes.keys = [] ∨ rttResults = [] then .done
    else locked .write .nodes (·.updateRtts rttResults) .done))

/-- The search for a query's hash, shard by shard. -/
def findQueryHash (queryId : Nat) (next : String → ClusterCode) :
    List (Fin DEDUP_SHARD_COUNT) → ClusterCode
  | [] => .done
  | i :: shards => reading (.shard i) fun c =>
    match (c.ownEntries i).find? fun e => e.2 = queryId with
    | none => findQueryHash queryId next shards
    | some (queryHash, _) =>
      if queryHash = "" then findQueryHash queryId next shards else next queryHash

variable [StringHash]

/-- For a query that is known: its hash, and then the results of the live nodes, each asked under
the shard of the hash. -/
def handleClusterResults (now queryId : Nat) (known : Bool) : ClusterCode :=
  if known then
    findQueryHash queryId
      (fun queryHash =>
        .acquire .read .nodes fun c => computeAdaptiveTimeoutSec fun timeoutSec =>
          readShards
            (((c.nodes.entries.map fun e => e.2).filter (isLive timeoutSec now)).map fun _ =>
              dedupShardIndex queryHash)
            (.release .nodes id .done))
      (List.finRange DEDUP_SHARD_COUNT)
  else .done

def isDuplicateQuery (now : Nat) (queryHash : String) : ClusterCode :=
  let shard := ClusterLock.shard (dedupShardIndex queryHash)
  .acquire .read shard fun c =>
    match c.findEntry queryHash with
    | none => .release shard id .done
    | some entry =>
      if elapsedSec now entry.registeredAt > DEDUP_WINDOW_SEC then .release shard id .done
      else if entry.nodeId = c.nodeId then .release shard id .done
      else .acquire .read .nodes fun _ => .release .nodes id (.release shard id .done)

def registerActiveQuery (now wallClockMs : Nat) (queryHash : String) (queryId : Nat) :
    ClusterCode :=
  locked .write (.shard (dedupShardIndex queryHash))
    (·.registerActiveQuery now wallClockMs queryHash queryId) .done

end ClusterCode

namespace ClusterCall

variable [StringHash]

def program : ClusterCall → ClusterCode
  | .getClusterNodes => ClusterCode.getClusterNodes
  | .isDuplicateQuery now queryHash => ClusterCode.isDuplicateQuery now queryHash
  | .shouldRedirect => ClusterCode.shouldRedirect
  | .handleClusterResults now queryId known => ClusterCode.handleClusterResults now queryId known
  | .handleClusterHeartbeat now h => ClusterCode.handleClusterHeartbeat now h
  | .registerActiveQuery now wallClockMs queryHash queryId =>
    ClusterCode.registerActiveQuery now wallClockMs queryHash queryId
  | .evictStaleNodes now => ClusterCode.evictStaleNodes now
  | .checkSplitBrain now => ClusterCode.checkSplitBrain now
  | .broadcastHeartbeat rttResults => ClusterCode.broadcastHeartbeat rttResults

/-- The exact condition on what a call finds under a lock: a redirect is looked for while the table
is empty, and the results of a query do not come to the table, since its hash is not found. -/
def IsFine : ClusterCall → ClusterLock → ClusterCoordinator → Prop
  | .shouldRedirect, .nodes, c => c.nodes.keys = []
  | .handleClusterResults _ _ _, .nodes, _ => False
  | _, _, _ => True

end ClusterCall

/-! ## The order of the locks -/

namespace ClusterLock

def rank : ClusterLock → Nat
  | .nodes => 0
  | .shard _ => 1

end ClusterLock

namespace ClusterCode

open ClusterLock ClusterCoordinator LockCode

variable {fine : ClusterLock → ClusterCoordinator → Prop} {held : List (LockMode × ClusterLock)}

/-- With nothing but the node table held a shard may be taken. -/
theorem rank_lt_shard (hheld : ∀ h ∈ held, h.2 = .nodes) (i : Fin DEDUP_SHARD_COUNT) :
    ∀ h ∈ held, rank h.2 < rank (.shard i) := by
  intro h hh
  rw [hheld h hh]
  exact Nat.zero_lt_one

theorem guarded_readShards (hheld : ∀ h ∈ held, h.2 = .nodes) (hfine : ∀ i c, fine (.shard i) c)
    (shards : List (Fin DEDUP_SHARD_COUNT)) {next : ClusterCode}
    (hnext : next.Guarded rank OwnOnly fine held) :
    (readShards shards next).Guarded rank OwnOnly fine held := by
  induction shards with
  | nil => exact hnext
  | cons i shards ih =>
    exact guarded_locked (rank_lt_shard hheld i) (hfine i) (fun _ h => h) ih

theorem guarded_evictShards (hheld : ∀ h ∈ held, h.2 = .nodes) (hfine : ∀ i c, fine (.shard i) c)
    (now : Nat) (shards : List (Fin DEDUP_SHARD_COUNT)) {next : ClusterCode}
    (hnext : next.Guarded rank OwnOnly fine held) :
    (evictShards now shards next).Guarded rank OwnOnly fine held := by
  induction shards with
  | nil => exact hnext
  | cons i shards ih =>
    refine guarded_locked (rank_lt_shard hheld i) (hfine i) (fun c hown => ?_) ih
    intro j queryHash entry hentry
    unfold evictShard at hentry
    dsimp only at hentry
    split at hentry
    · rw [UMap.find_keep] at hentry
      exact hown j queryHash entry (Option.filter_eq_some_iff.mp hentry).1
    · exact hown j queryHash entry hentry

/-- The timeout is computed while nothing is held. -/
theorem guarded_computeAdaptiveTimeoutSec (hfine : ∀ c, fine .nodes c)
    {next : Nat → ClusterCode}
    (hnext : ∀ timeoutSec, (next timeoutSec).Guarded rank OwnOnly fine []) :
    (computeAdaptiveTimeoutSec next).Guarded rank OwnOnly fine [] :=
  guarded_reading (fun _ h => (List.not_mem_nil h).elim) hfine fun _ _ => hnext _

theorem guarded_findQueryHash (hfine : ∀ i c, fine (.shard i) c) (queryId : Nat)
    {next : String → ClusterCode}
    (hnext : ∀ queryHash, (next queryHash).Guarded rank OwnOnly fine [])
    (shards : List (Fin DEDUP_SHARD_COUNT)) :
    (findQueryHash queryId next shards).Guarded rank OwnOnly fine [] := by
  induction shards with
  | nil => trivial
  | cons i shards ih =>
    refine guarded_reading (fun _ h => (List.not_mem_nil h).elim) (hfine i) fun c _ => ?_
    split
    · exact ih
    · split
      · exact ih
      · exact hnext _

end ClusterCode

open ClusterLock ClusterCoordinator LockCode ClusterCode in
/-- Every call takes its locks in order as long as what it finds is fine. -/
theorem ClusterCall.guarded_program [StringHash] (call : ClusterCall) :
    call.program.Guarded rank OwnOnly call.IsFine [] := by
  have hnone : ∀ lock, ∀ h ∈ ([] : List (LockMode × ClusterLock)), rank h.2 < rank lock :=
    fun lock h hh => (List.not_mem_nil hh).elim
  have hnothing : ∀ h ∈ ([] : List (LockMode × ClusterLock)), h.2 = .nodes :=
    fun h hh => (List.not_mem_nil hh).elim
  have hnodes : ∀ mode : LockMode, ∀ h ∈ [(mode, ClusterLock.nodes)], h.2 = .nodes := by
    intro mode h hh
    rw [List.mem_singleton.mp hh]
  cases call with
  | getClusterNodes =>
    refine ⟨hnone _, fun c _ => ⟨fun _ => ?_, fun h => absurd trivial h⟩⟩
    exact guarded_readShards (hnodes .read) (fun _ _ => trivial) _ ⟨fun _ h => h, trivial⟩
  | isDuplicateQuery now queryHash =>
    refine ⟨hnone _, fun c hown => ⟨fun _ => ?_, fun h => absurd trivial h⟩⟩
    dsimp only
    split
    · exact ⟨fun _ h => h, trivial⟩
    · next entry hentry =>
      split
      · exact ⟨fun _ h => h, trivial⟩
      · rw [if_pos (hown _ _ entry hentry)]
        exact ⟨fun _ h => h, trivial⟩
  | shouldRedirect =>
    refine guarded_readShards hnothing (fun _ _ => trivial) _ ⟨hnone _, fun c _ => ⟨?_, ?_⟩⟩
    · intro (hempty : c.nodes.keys = [])
      dsimp only
      rw [if_pos hempty]
      exact ⟨fun _ h => h, trivial⟩
    · intro (hnonempty : ¬ c.nodes.keys = [])
      dsimp only
      rw [if_neg hnonempty]
      rfl
  | handleClusterResults now queryId known =>
    cases known with
    | false => trivial
    | true =>
      refine guarded_findQueryHash (fun _ _ => trivial) queryId (fun queryHash => ?_) _
      exact ⟨hnone _, fun c _ => ⟨fun h => h.elim, fun _ => rfl⟩⟩
  | handleClusterHeartbeat now h =>
    exact guarded_locked (hnone _) (fun _ => trivial) (fun c hown => hown.of_eq _ rfl rfl) trivial
  | registerActiveQuery now wallClockMs queryHash queryId =>
    exact guarded_locked (hnone _) (fun _ => trivial)
      (fun c hown => hown.registerActiveQuery now wallClockMs queryHash queryId) trivial
  | evictStaleNodes now =>
    unfold program ClusterCode.evictStaleNodes
    refine guarded_computeAdaptiveTimeoutSec (fun _ => trivial) fun timeoutSec => ?_
    refine ⟨hnone _, fun c _ => ⟨fun _ => ?_, fun h => absurd trivial h⟩⟩
    exact guarded_evictShards (hnodes .write) (fun _ _ => trivial) now _
      ⟨fun c hown => hown.of_eq _ rfl rfl, trivial⟩
  | checkSplitBrain now =>
    unfold program ClusterCode.checkSplitBrain
    refine guarded_computeAdaptiveTimeoutSec (fun _ => trivial) fun timeoutSec => ?_
    refine ⟨hnone _, fun c _ => ⟨fun _ => ?_, fun h => absurd trivial h⟩⟩
    exact ⟨fun c' hown => hown.of_eq _ rfl rfl, trivial⟩
  | broadcastHeartbeat rttResults =>
    refine guarded_readShards hnothing (fun _ _ => trivial) _
      (guarded_readShards hnothing (fun _ _ => trivial) _ ?_)
    refine guarded_reading (hnone _) (fun _ => trivial) fun c _ => ?_
    split
    · trivial
    · exact guarded_locked (hnone _) (fun _ => trivial) (fun c hown => hown.of_eq _ rfl rfl) trivial

/-! ## Runs -/

namespace ClusterSite

/-- A node that has just started. -/
def coordinator (site : ClusterSite) : ClusterCoordinator :=
  { nodeId := site.nodeId, localHost := site.localHost, localRegion := site.localRegion
    restPort := site.restPort, cpuLoad := site.cpuLoad, isolated := false, nodes := ∅
    dedupShards := fun _ => ∅ }

end ClusterSite

abbrev ClusterLockState := LockState ClusterCall ClusterLock ClusterCoordinator

namespace ClusterLockState

def start (site : ClusterSite) : ClusterLockState := ⟨[], site.coordinator⟩

/-- The locks are safe after every step of a run exactly if whatever a call finds is fine. -/
theorem along_ordered_iff [StringHash] (site : ClusterSite)
    (steps : List (LockStep ClusterCall)) :
    (LockState.machine ClusterCall.program).Along (LockState.StepSafe ClusterCall.program) []
        (start site) steps ↔
      (LockState.machine ClusterCall.program).Along (LockState.StepFine ClusterCall.IsFine) []
        (start site) steps := by
  refine LockState.along_lockSafe_iff ClusterCall.guarded_program ⟨?_, ?_⟩ steps
  · intro i queryHash entry hentry
    exact absurd hentry (by rw [start, ClusterSite.coordinator, UMap.find_empty]; exact nofun)
  · exact fun thread hthread => (List.not_mem_nil hthread).elim

/-- A node is known, and a redirect is looked for while another heartbeat comes. -/
def knownNode : List (LockStep ClusterCall) :=
  [LockStep.call (ClusterCall.handleClusterHeartbeat 0
      ⟨"b", "10.0.0.2", 8600, 0, 0, 0, "", [], []⟩), .act 0, .act 0,
    .call .shouldRedirect,
    .call (.handleClusterHeartbeat 0 ⟨"b", "10.0.0.2", 8600, 0, 0, 0, "", [], []⟩)] ++
    List.replicate 16 (LockStep.act 1)

/-- The second thread holds the lock of the table, the third waits for it, and the second comes to
take it again. -/
theorem knownNode_not_ordered :
    ¬ (LockState.machine (@ClusterCall.program ClusterState.byLength)).Along
      (LockState.StepSafe (@ClusterCall.program ClusterState.byLength)) []
      (start ⟨"a", "10.0.0.1", "", 8600, 0⟩) (knownNode ++ [LockStep.act 1]) := by
  intro h
  obtain ⟨-, hlast, -⟩ := Machine.along_append.mp h
  have hrelock : (((LockState.machine (@ClusterCall.program ClusterState.byLength)).run
      (start ⟨"a", "10.0.0.1", "", 8600, 0⟩) (knownNode ++ [LockStep.act 1])).1.threads.any
        fun thread => thread.code.relocks thread.held) = true := by decide +kernel
  rw [Machine.run_append] at hrelock
  obtain ⟨thread, hthread, htwice⟩ := List.any_eq_true.mp hrelock
  rw [hlast.relock thread hthread] at htwice
  cases htwice

end ClusterLockState

end Alpine
