import Mathlib.Data.NNRat.Lemmas
import Mathlib.Data.Rat.Floor
import Alpine.Lib.Numerals
import Alpine.Lib.UMap

/-!
# The cluster coordinator

A bridge keeps a table of the nodes it hears from, an index of the queries that are under way in the
cluster, and sends a heartbeat with its own load and queries to every node of the table. A cluster
query is redirected to the node that processes it already, or to a node with less load, or started.

Times are nanoseconds of the steady clock. Loads and round-trip times are the numbers that the
doubles are; what is computed from them is rounded to a double at each operation. A heartbeat is the
record of what its JSON has; the peer scores in it are the rating engine's.
-/

namespace Alpine

open Lib

/-- `std::hash<string>`. -/
class StringHash where
  hash : String → Nat

structure NodeInfo where
  nodeId : String
  host : String
  restPort : UInt16
  activeQueries : Nat
  connectionCount : Nat
  cpuLoadEstimate : ℚ≥0
  region : String
  rttMs : ℚ≥0
  capabilities : List String
  lastHeartbeat : Nat
  deriving DecidableEq

/-- The value that `operator[]` inserts. -/
def NodeInfo.empty : NodeInfo := ⟨"", "", 0, 0, 0, 0, "", 0, [], 0⟩

structure DedupEntry where
  nodeId : String
  queryId : Nat
  registeredAt : Nat
  wallClockMs : Nat
  deriving DecidableEq

/-- What `broadcastHeartbeat` sends. -/
structure Heartbeat where
  nodeId : String
  host : String
  restPort : Nat
  activeQueries : Nat
  connectionCount : Nat
  cpuLoad : ℚ≥0
  region : String
  capabilities : List String
  activeQueryHashes : List (String × Nat)
  deriving DecidableEq

def DEDUP_SHARD_COUNT : Nat := 8

structure ClusterCoordinator where
  nodeId : String
  localHost : String
  localRegion : String
  restPort : UInt16
  /-- What `estimateCpuLoad` returns. -/
  cpuLoad : ℚ≥0
  isolated : Bool
  nodes : UMap String NodeInfo
  dedupShards : Fin DEDUP_SHARD_COUNT → UMap String DedupEntry

/-- A cluster query whose body was read. -/
structure ClusterQuery where
  queryString : String
  groupName : String
  autoHaltLimit : Nat
  deriving DecidableEq

inductive ClusterReply where
  /-- Redirected to the node that processes the query. -/
  | deduplicated (host : String) (restPort : UInt16)
  /-- Redirected to a node with less load. -/
  | loadBalanced (host : String) (restPort : UInt16)
  | serverError (message : String)
  | accepted (queryId : Nat) (queryHash : String)
  deriving DecidableEq

namespace ClusterCoordinator

def DEDUP_WINDOW_SEC : Nat := 30

def NODE_TIMEOUT_MIN_SEC : Nat := 35

def NODE_TIMEOUT_MAX_SEC : Nat := 120

def SPLIT_BRAIN_MULTIPLIER : Nat := 2

/-- `duration_cast<seconds>`; a time that is still to come counts as now. -/
def elapsedSec (now since : Nat) : Nat := (now - since) / 1000000000

/-! ## The index of queries -/

section Dedup

variable [StringHash]

def dedupShardIndex (key : String) : Fin DEDUP_SHARD_COUNT :=
  ⟨StringHash.hash key % DEDUP_SHARD_COUNT, Nat.mod_lt _ (by decide)⟩

/-- The entry of a hash, in its shard. -/
def findEntry (c : ClusterCoordinator) (queryHash : String) : Option DedupEntry :=
  (c.dedupShards (dedupShardIndex queryHash)).find queryHash

/-- A change of one shard. -/
def onShard (c : ClusterCoordinator) (queryHash : String)
    (f : UMap String DedupEntry → UMap String DedupEntry) : ClusterCoordinator :=
  { c with
    dedupShards := fun i =>
      if i = dedupShardIndex queryHash then f (c.dedupShards i) else c.dedupShards i }

/-- The combined parameters, hashed and in hexadecimal digits. -/
def hashQuery (query : ClusterQuery) : String :=
  let combined :=
    query.queryString ++ "|" ++ query.groupName ++ "|" ++ toString query.autoHaltLimit
  let digits := Nat.toDigits 16 (StringHash.hash combined)
  String.ofList (List.replicate (16 - digits.length) '0' ++ digits)

/-- The node that processes a query already. -/
def isDuplicateQuery (c : ClusterCoordinator) (now : Nat) (queryHash : String) :
    Option (String × UInt16) :=
  match c.findEntry queryHash with
  | none => none
  | some entry =>
    if elapsedSec now entry.registeredAt > DEDUP_WINDOW_SEC then none
    else if entry.nodeId = c.nodeId then none
    else
      match c.nodes.find entry.nodeId with
      | none => none
      | some node => some (node.host, node.restPort)

def registerActiveQuery (c : ClusterCoordinator) (now wallClockMs : Nat) (queryHash : String)
    (queryId : Nat) : ClusterCoordinator :=
  c.onShard queryHash fun entries =>
    entries.assign queryHash ⟨c.nodeId, queryId, now, wallClockMs⟩

def unregisterActiveQuery (c : ClusterCoordinator) (queryHash : String) : ClusterCoordinator :=
  c.onShard queryHash fun entries => entries.erase queryHash

end Dedup

/-- The queries of a shard that are the node's own. -/
def ownEntries (c : ClusterCoordinator) (i : Fin DEDUP_SHARD_COUNT) : List (String × Nat) :=
  ((c.dedupShards i).entries.filter fun e => e.2.nodeId = c.nodeId).map fun e => (e.1, e.2.queryId)

def activeQueryHashes (c : ClusterCoordinator) : List (String × Nat) :=
  (List.finRange DEDUP_SHARD_COUNT).flatMap c.ownEntries

def getLocalNodeInfo (c : ClusterCoordinator) (now : Nat) : NodeInfo :=
  { nodeId := c.nodeId, host := c.localHost, restPort := c.restPort
    activeQueries := c.activeQueryHashes.length % 2 ^ 32, connectionCount := 0
    cpuLoadEstimate := c.cpuLoad, region := c.localRegion, rttMs := 0
    capabilities := ["query", "transfer", "stream"], lastHeartbeat := now }

def getClusterNodes (c : ClusterCoordinator) (now : Nat) : List NodeInfo :=
  c.getLocalNodeInfo now :: c.nodes.entries.map fun e => e.2

/-! ## Loads -/

def measuredRtts (nodes : UMap String NodeInfo) : List ℚ≥0 :=
  (nodes.entries.map fun e => e.2.rttMs).filter fun rtt => 0 < rtt

/-- `static_cast<int>` of a number that is not negative. -/
def truncate (x : ℚ) : Nat := ⌊x⌋₊

/-- The sum of the measured times, in the order of the table. -/
def totalRtt (nodes : UMap String NodeInfo) : ℚ :=
  (measuredRtts nodes).foldl (fun total rtt => nearest (total + rtt)) 0

def computeAdaptiveTimeoutSec (nodes : UMap String NodeInfo) : Nat :=
  if measuredRtts nodes = [] then NODE_TIMEOUT_MIN_SEC
  else
    let avgRttMs := nearest (totalRtt nodes / (measuredRtts nodes).length)
    let rttBased := truncate (nearest (nearest (avgRttMs * 10) / 1000))
    min (max NODE_TIMEOUT_MIN_SEC rttBased) NODE_TIMEOUT_MAX_SEC

/-- `0.1` for every query. -/
def queryScore (node : NodeInfo) : ℚ := nearest (node.activeQueries * nearest (1 / 10))

def loadScore (node : NodeInfo) : ℚ := nearest (node.cpuLoadEstimate + queryScore node)

/-- `0.8` times the score. -/
def reduced (score : ℚ) : ℚ := nearest (score * nearest (4 / 5))

/-- A node of the same region counts for less. -/
def withBonus (region : String) (node : NodeInfo) (score : ℚ) : ℚ :=
  if node.region = region then reduced score else score

/-- A node whose heartbeat is not stale. -/
def isLive (timeoutSec now : Nat) (node : NodeInfo) : Bool :=
  elapsedSec now node.lastHeartbeat ≤ timeoutSec

/-- The loop over the live nodes: the first is taken, and then every node that is better. -/
def findBest (score : NodeInfo → ℚ) (best : Option NodeInfo) : List NodeInfo → Option NodeInfo
  | [] => best
  | node :: nodes =>
    match best with
    | none => findBest score (some node) nodes
    | some b => findBest score (if score node < score b then some node else some b) nodes

/-- The live nodes in the order of the table. -/
def liveNodes (c : ClusterCoordinator) (now : Nat) : List NodeInfo :=
  (c.nodes.entries.map fun e => e.2).filter (isLive (computeAdaptiveTimeoutSec c.nodes) now)

/-- The host and the port that the URL has. -/
def shouldRedirect (c : ClusterCoordinator) (now : Nat) : Option (String × UInt16) :=
  let localScore := loadScore (c.getLocalNodeInfo now)
  let score := fun node => withBonus c.localRegion node (loadScore node)
  match findBest score none (c.liveNodes now) with
  | none => none
  | some best =>
    if score best ≥ reduced localScore then none else some (best.host, best.restPort)

/-! ## Heartbeats -/

def heartbeat (c : ClusterCoordinator) (now : Nat) : Heartbeat :=
  let info := c.getLocalNodeInfo now
  { nodeId := info.nodeId, host := info.host, restPort := info.restPort.toNat
    activeQueries := info.activeQueries, connectionCount := info.connectionCount
    cpuLoad := info.cpuLoadEstimate, region := info.region, capabilities := info.capabilities
    activeQueryHashes := c.activeQueryHashes }

/-- What is not in the heartbeat, or is not taken from it, stays as it was. -/
def handleClusterHeartbeat (c : ClusterCoordinator) (now : Nat) (h : Heartbeat) :
    ClusterCoordinator :=
  let node := (c.nodes.find h.nodeId).getD .empty
  { c with
    nodes := c.nodes.assign h.nodeId
      { node with
        nodeId := h.nodeId
        host := h.host
        restPort := UInt16.ofNat h.restPort
        activeQueries := h.activeQueries % 2 ^ 32
        connectionCount := h.connectionCount % 2 ^ 32
        region := h.region
        lastHeartbeat := now } }

/-- The answers of a broadcast, with the times they took. -/
def updateRtts (c : ClusterCoordinator) (rttResults : List (String × ℚ≥0)) :
    ClusterCoordinator :=
  { c with
    nodes := rttResults.foldl (fun nodes (id, rtt) =>
      match nodes.find id with
      | none => nodes
      | some node => nodes.assign id { node with rttMs := rtt }) c.nodes }

/-- A beacon adds a node under an id of its own. -/
def handleBeacon (c : ClusterCoordinator) (now : Nat) (peerNodeId peerHost : String)
    (peerRestPort : UInt16) (region : Option String) (capabilities : Option (List String)) :
    ClusterCoordinator :=
  let node := (c.nodes.find peerNodeId).getD .empty
  { c with
    nodes := c.nodes.assign peerNodeId
      { node with
        nodeId := peerNodeId
        host := peerHost
        restPort := peerRestPort
        lastHeartbeat := now
        region := region.getD node.region
        capabilities := capabilities.getD node.capabilities } }

def evictStaleNodes (c : ClusterCoordinator) (now : Nat) : ClusterCoordinator :=
  { c with
    nodes := c.nodes.keep (isLive (computeAdaptiveTimeoutSec c.nodes) now)
    dedupShards := fun i => (c.dedupShards i).keep fun entry =>
      elapsedSec now entry.registeredAt ≤ DEDUP_WINDOW_SEC }

/-- How many nodes of the table have been silent for longer than the window. -/
def unreachable (c : ClusterCoordinator) (now : Nat) : Nat :=
  c.nodes.countBy fun _ node => decide
    (elapsedSec now node.lastHeartbeat >
      computeAdaptiveTimeoutSec c.nodes * SPLIT_BRAIN_MULTIPLIER)

/-- More than one half of the nodes is `SPLIT_BRAIN_THRESHOLD`. -/
def checkSplitBrain (c : ClusterCoordinator) (now : Nat) : ClusterCoordinator :=
  if c.nodes.keys = [] then { c with isolated := false }
  else { c with isolated := decide (2 * c.unreachable now > c.nodes.keys.length) }

/-! ## Cluster queries -/

/-- `started` is what `startQuery2` returns. -/
def handleClusterQuery [StringHash] (c : ClusterCoordinator) (now wallClockMs : Nat)
    (query : ClusterQuery) (started : Option Nat) : ClusterCoordinator × ClusterReply :=
  let queryHash := hashQuery query
  match c.isDuplicateQuery now queryHash with
  | some (ownerHost, ownerPort) => (c, .deduplicated ownerHost ownerPort)
  | none =>
    match c.shouldRedirect now with
    | some (host, restPort) => (c, .loadBalanced host restPort)
    | none =>
      match started with
      | none => (c, .serverError "Failed to start query")
      | some queryId =>
        (c.registerActiveQuery now wallClockMs queryHash queryId, .accepted queryId queryHash)

end ClusterCoordinator

end Alpine
