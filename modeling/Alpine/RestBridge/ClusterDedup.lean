import Alpine.Lib.Run
import Alpine.RestBridge.ClusterCoordinator

/-!
# Queries in a cluster

The machine is a cluster of any nodes: each heartbeat that was sent may be received by any node, in
any order. The sender puts the hashes of its queries in the heartbeat, and the receiver leaves them
there, so the index of a node has its own queries only (`OwnOnly`) and no query is ever taken for a
duplicate. `StepFits` is the exact condition for that to do no harm (`along_deduplicates_iff`).
-/

namespace Alpine

open Lib

/-- What a node is when it starts. -/
structure ClusterSite where
  nodeId : String
  localHost : String
  localRegion : String
  restPort : UInt16
  cpuLoad : ℚ≥0

structure ClusterState where
  coordinators : Nat → ClusterCoordinator
  clock : Nat
  /-- The heartbeats that were sent. -/
  sent : List Heartbeat

inductive ClusterStep where
  | broadcastHeartbeat (i : Nat)
  /-- Node `i` receives a heartbeat that was sent. -/
  | receive (i k : Nat)
  | updateRtts (i : Nat) (rttResults : List (String × ℚ≥0))
  | beacon (i : Nat) (peerNodeId peerHost : String) (peerRestPort : UInt16)
      (region : Option String) (capabilities : Option (List String))
  | evictStaleNodes (i : Nat)
  | checkSplitBrain (i : Nat)
  | query (i : Nat) (query : ClusterQuery) (started : Option Nat) (wallClockMs : Nat)
  | unregister (i : Nat) (queryHash : String)
  | load (i : Nat) (cpuLoad : ℚ≥0)
  | tick (duration : Nat)

/-- Node `i` received a heartbeat at a time. -/
structure HeardHeartbeat where
  receiver : Nat
  heartbeat : Heartbeat
  time : Nat
  deriving DecidableEq

namespace ClusterReply

/-- Where a reply sends the client. -/
def redirect : ClusterReply → Option (String × UInt16)
  | .deduplicated host restPort => some (host, restPort)
  | .loadBalanced host restPort => some (host, restPort)
  | _ => none

end ClusterReply

namespace ClusterState

variable [StringHash]

def start (sites : Nat → ClusterSite) : ClusterState where
  coordinators i :=
    { nodeId := (sites i).nodeId, localHost := (sites i).localHost
      localRegion := (sites i).localRegion, restPort := (sites i).restPort
      cpuLoad := (sites i).cpuLoad, isolated := false, nodes := ∅, dedupShards := fun _ => ∅ }
  clock := 0
  sent := []

omit [StringHash] in
def put (s : ClusterState) (i : Nat) (c : ClusterCoordinator) : ClusterState :=
  { s with coordinators := fun j => if j = i then c else s.coordinators j }

def step (s : ClusterState) : ClusterStep → ClusterState × List HeardHeartbeat
  | .broadcastHeartbeat i =>
    ({ s with sent := s.sent ++ [(s.coordinators i).heartbeat s.clock] }, [])
  | .receive i k =>
    match s.sent[k]? with
    | none => (s, [])
    | some h =>
      (s.put i ((s.coordinators i).handleClusterHeartbeat s.clock h), [⟨i, h, s.clock⟩])
  | .updateRtts i rttResults => (s.put i ((s.coordinators i).updateRtts rttResults), [])
  | .beacon i peerNodeId peerHost peerRestPort region capabilities =>
    (s.put i ((s.coordinators i).handleBeacon s.clock peerNodeId peerHost peerRestPort region
      capabilities), [])
  | .evictStaleNodes i => (s.put i ((s.coordinators i).evictStaleNodes s.clock), [])
  | .checkSplitBrain i => (s.put i ((s.coordinators i).checkSplitBrain s.clock), [])
  | .query i query started wallClockMs =>
    (s.put i ((s.coordinators i).handleClusterQuery s.clock wallClockMs query started).1, [])
  | .unregister i queryHash => (s.put i ((s.coordinators i).unregisterActiveQuery queryHash), [])
  | .load i cpuLoad => (s.put i { s.coordinators i with cpuLoad }, [])
  | .tick duration => ({ s with clock := s.clock + duration }, [])

def machine : Machine ClusterState ClusterStep HeardHeartbeat := ⟨step⟩

/-! ## What must hold -/

/-- The heartbeat that node `i` received last from a peer. -/
def lastHeard (history : List HeardHeartbeat) (i : Nat) (peerId : String) :
    Option HeardHeartbeat :=
  (history.filter fun e => e.receiver = i && e.heartbeat.nodeId = peerId).getLast?

/-- A live node of the table whose last heartbeat advertises the hash, within the window. -/
structure Advertises (history : List HeardHeartbeat) (s : ClusterState) (i : Nat)
    (queryHash peerId : String) (node : NodeInfo) : Prop where
  other : peerId ≠ (s.coordinators i).nodeId
  found : (s.coordinators i).nodes.find peerId = some node
  live : ClusterCoordinator.isLive
    (ClusterCoordinator.computeAdaptiveTimeoutSec (s.coordinators i).nodes) s.clock node = true
  heard : ∃ e, lastHeard history i peerId = some e ∧
    ClusterCoordinator.elapsedSec s.clock e.time ≤ ClusterCoordinator.DEDUP_WINDOW_SEC ∧
    ∃ queryId, (queryHash, queryId) ∈ e.heartbeat.activeQueryHashes

/-- The node has registered the query itself. -/
def Registered (c : ClusterCoordinator) (queryHash : String) : Prop :=
  ∃ entry, c.findEntry queryHash = some entry ∧ entry.nodeId = c.nodeId

/-- The reply to a query: an advertised one goes to a node that advertises it, one that the node
registered itself goes nowhere, and a redirect names a node of the table. -/
structure ReplyDeduplicates (history : List HeardHeartbeat) (s : ClusterState) (i : Nat)
    (queryHash : String) (reply : ClusterReply) : Prop where
  advertised : ¬ Registered (s.coordinators i) queryHash →
    (∃ peerId node, Advertises history s i queryHash peerId node) →
    ∃ peerId node, Advertises history s i queryHash peerId node ∧
      reply.redirect = some (node.host, node.restPort)
  registered : Registered (s.coordinators i) queryHash → reply.redirect = none
  named : ∀ host restPort, reply.redirect = some (host, restPort) →
    ∃ peerId node, (s.coordinators i).nodes.find peerId = some node ∧
      node.host = host ∧ node.restPort = restPort

/-- Queries are deduplicated, and a heartbeat leaves the node's own registrations alone. -/
def StepDeduplicates (history : List HeardHeartbeat) (s : ClusterState) : ClusterStep → Prop
  | .query i query started wallClockMs =>
    ReplyDeduplicates history s i (ClusterCoordinator.hashQuery query)
      ((s.coordinators i).handleClusterQuery s.clock wallClockMs query started).2
  | .receive i k => ∀ queryHash entry, (s.coordinators i).findEntry queryHash = some entry →
      entry.nodeId = (s.coordinators i).nodeId →
      ((s.step (.receive i k)).1.coordinators i).findEntry queryHash = some entry
  | _ => True

/-- The exact condition. A query that the node registered itself comes when no other node has less
load, and one that is advertised when the node with the least load is one that advertises it. -/
def StepFits (history : List HeardHeartbeat) (s : ClusterState) : ClusterStep → Prop
  | .query i query _ _ =>
    (Registered (s.coordinators i) (ClusterCoordinator.hashQuery query) →
      (s.coordinators i).shouldRedirect s.clock = none) ∧
    (¬ Registered (s.coordinators i) (ClusterCoordinator.hashQuery query) →
      (∃ peerId node,
        Advertises history s i (ClusterCoordinator.hashQuery query) peerId node) →
      ∃ peerId node, Advertises history s i (ClusterCoordinator.hashQuery query) peerId node ∧
        (s.coordinators i).shouldRedirect s.clock = some (node.host, node.restPort))
  | _ => True

end ClusterState

/-! ## The index -/

namespace ClusterCoordinator

/-- The index has the node's own queries. -/
def OwnOnly (c : ClusterCoordinator) : Prop :=
  ∀ i queryHash entry, (c.dedupShards i).find queryHash = some entry → entry.nodeId = c.nodeId

variable {c : ClusterCoordinator}

theorem OwnOnly.of_eq (h : c.OwnOnly) (c' : ClusterCoordinator) (hid : c'.nodeId = c.nodeId)
    (hshards : c'.dedupShards = c.dedupShards) : c'.OwnOnly := by
  intro i queryHash entry hentry
  rw [hshards] at hentry
  rw [hid]
  exact h i queryHash entry hentry

theorem OwnOnly.evictStaleNodes (h : c.OwnOnly) (now : Nat) : (c.evictStaleNodes now).OwnOnly := by
  intro i queryHash entry hentry
  unfold ClusterCoordinator.evictStaleNodes at hentry
  dsimp only at hentry
  rw [UMap.find_keep] at hentry
  exact h i queryHash entry (Option.filter_eq_some_iff.mp hentry).1

theorem findBest_mem {score : NodeInfo → ℚ} {best : Option NodeInfo} {nodes : List NodeInfo}
    {node : NodeInfo} (h : findBest score best nodes = some node) :
    best = some node ∨ node ∈ nodes := by
  induction nodes generalizing best with
  | nil => exact .inl h
  | cons first nodes ih =>
    unfold findBest at h
    cases best with
    | none =>
      rcases ih h with heq | hmem
      · cases heq
        exact .inr List.mem_cons_self
      · exact .inr (List.mem_cons_of_mem _ hmem)
    | some b =>
      rcases ih h with heq | hmem
      · split at heq
        · cases heq
          exact .inr List.mem_cons_self
        · exact .inl heq
      · exact .inr (List.mem_cons_of_mem _ hmem)

theorem mem_liveNodes {now : Nat} {node : NodeInfo} : node ∈ c.liveNodes now ↔
    (∃ id, c.nodes.find id = some node) ∧
      isLive (computeAdaptiveTimeoutSec c.nodes) now node = true := by
  unfold liveNodes
  rw [List.mem_filter]
  refine and_congr_left fun _ => ?_
  constructor
  · intro hmem
    obtain ⟨e, he, rfl⟩ := List.mem_map.mp hmem
    exact ⟨e.1, UMap.mem_entries.mp he⟩
  · rintro ⟨id, hfind⟩
    exact List.mem_map.mpr ⟨_, UMap.mem_entries.mpr hfind, rfl⟩

/-- The node that a redirect names. -/
theorem exists_of_shouldRedirect {now : Nat} {host : String} {restPort : UInt16}
    (h : c.shouldRedirect now = some (host, restPort)) :
    ∃ node ∈ c.liveNodes now, node.host = host ∧ node.restPort = restPort := by
  unfold shouldRedirect at h
  dsimp only at h
  split at h
  · cases h
  · next best hbest =>
    split at h
    · cases h
    · obtain ⟨rfl, rfl⟩ := Prod.mk.inj (Option.some.inj h)
      rcases findBest_mem hbest with hnone | hmem
      · cases hnone
      · exact ⟨best, hmem, rfl, rfl⟩

variable [StringHash]

theorem OwnOnly.onShard (h : c.OwnOnly) {queryHash : String}
    {f : UMap String DedupEntry → UMap String DedupEntry}
    (hf : ∀ entries : UMap String DedupEntry,
      (∀ k entry, entries.find k = some entry → entry.nodeId = c.nodeId) →
      ∀ k entry, (f entries).find k = some entry → entry.nodeId = c.nodeId) :
    (c.onShard queryHash f).OwnOnly := by
  intro i k entry hentry
  unfold ClusterCoordinator.onShard at hentry
  dsimp only at hentry
  split at hentry
  · exact hf _ (h i) k entry hentry
  · exact h i k entry hentry

theorem OwnOnly.registerActiveQuery (h : c.OwnOnly) (now wallClockMs : Nat) (queryHash : String)
    (queryId : Nat) : (c.registerActiveQuery now wallClockMs queryHash queryId).OwnOnly := by
  refine h.onShard fun entries hown k entry hentry => ?_
  rw [UMap.find_assign] at hentry
  split at hentry
  · cases hentry
    rfl
  · exact hown k entry hentry

theorem OwnOnly.unregisterActiveQuery (h : c.OwnOnly) (queryHash : String) :
    (c.unregisterActiveQuery queryHash).OwnOnly := by
  refine h.onShard fun entries hown k entry hentry => ?_
  rw [UMap.find_erase] at hentry
  split at hentry
  · cases hentry
  · exact hown k entry hentry

/-- A query is never taken for a duplicate. -/
theorem OwnOnly.isDuplicateQuery (h : c.OwnOnly) (now : Nat) (queryHash : String) :
    c.isDuplicateQuery now queryHash = none := by
  unfold ClusterCoordinator.isDuplicateQuery
  cases hentry : c.findEntry queryHash with
  | none => rfl
  | some entry =>
    dsimp only
    split
    · rfl
    · rw [if_pos (h _ queryHash entry hentry)]

theorem OwnOnly.handleClusterQuery (h : c.OwnOnly) (now wallClockMs : Nat) (query : ClusterQuery)
    (started : Option Nat) :
    (c.handleClusterQuery now wallClockMs query started).1.OwnOnly ∧
      (c.handleClusterQuery now wallClockMs query started).2.redirect = c.shouldRedirect now := by
  unfold ClusterCoordinator.handleClusterQuery
  dsimp only
  rw [h.isDuplicateQuery]
  dsimp only
  cases c.shouldRedirect now with
  | some target => exact ⟨h, rfl⟩
  | none =>
    cases started with
    | none => exact ⟨h, rfl⟩
    | some queryId => exact ⟨h.registerActiveQuery now wallClockMs _ queryId, rfl⟩

end ClusterCoordinator

/-! ## Runs -/

namespace ClusterState

variable [StringHash] {s : ClusterState}

def Kept (_ : List HeardHeartbeat) (s : ClusterState) : Prop :=
  ∀ i, (s.coordinators i).OwnOnly

omit [StringHash] in
theorem Kept.put {history : List HeardHeartbeat} (h : Kept history s) (i : Nat)
    (c : ClusterCoordinator) (hc : c.OwnOnly) (history' : List HeardHeartbeat) :
    Kept history' (s.put i c) := by
  intro j
  unfold ClusterState.put
  dsimp only
  split
  · exact hc
  · exact h j

theorem Kept.step {history : List HeardHeartbeat} (h : Kept history s) (a : ClusterStep) :
    Kept (history ++ (s.step a).2) (s.step a).1 := by
  cases a with
  | broadcastHeartbeat i => exact h
  | receive i k =>
    unfold ClusterState.step
    dsimp only
    split
    · exact h
    · next m _ =>
      exact h.put i ((s.coordinators i).handleClusterHeartbeat s.clock m) ((h i).of_eq _ rfl rfl) _
  | updateRtts i rttResults =>
    exact h.put i ((s.coordinators i).updateRtts rttResults) ((h i).of_eq _ rfl rfl) _
  | beacon i peerNodeId peerHost peerRestPort region capabilities =>
    exact h.put i ((s.coordinators i).handleBeacon s.clock peerNodeId peerHost peerRestPort region
      capabilities) ((h i).of_eq _ rfl rfl) _
  | evictStaleNodes i => exact h.put i _ ((h i).evictStaleNodes s.clock) _
  | checkSplitBrain i =>
    refine h.put i ((s.coordinators i).checkSplitBrain s.clock) ?_ _
    unfold ClusterCoordinator.checkSplitBrain
    split
    · exact (h i).of_eq _ rfl rfl
    · exact (h i).of_eq _ rfl rfl
  | query i query started wallClockMs =>
    exact h.put i _ ((h i).handleClusterQuery s.clock wallClockMs query started).1 _
  | unregister i queryHash => exact h.put i _ ((h i).unregisterActiveQuery queryHash) _
  | load i cpuLoad =>
    exact h.put i { s.coordinators i with cpuLoad } ((h i).of_eq _ rfl rfl) _
  | tick duration => exact h

/-- A heartbeat does not come to the index. -/
theorem findEntry_receive (s : ClusterState) (i k : Nat) (queryHash : String) :
    ((s.step (.receive i k)).1.coordinators i).findEntry queryHash =
      (s.coordinators i).findEntry queryHash := by
  unfold step
  dsimp only
  split
  · rfl
  · unfold put
    dsimp only
    rw [if_pos rfl]
    rfl

theorem Kept.deduplicates_iff {history : List HeardHeartbeat} (h : Kept history s)
    (a : ClusterStep) : StepDeduplicates history s a ↔ StepFits history s a := by
  cases a with
  | query i query started wallClockMs =>
    obtain ⟨-, hreply⟩ := (h i).handleClusterQuery s.clock wallClockMs query started
    constructor
    · rintro ⟨hadvertised, hregistered, -⟩
      rw [hreply] at hadvertised hregistered
      exact ⟨hregistered, hadvertised⟩
    · rintro ⟨hregistered, hadvertised⟩
      refine ⟨?_, ?_, fun host restPort hredirect => ?_⟩
      · rw [hreply]
        exact hadvertised
      · rw [hreply]
        exact hregistered
      · rw [hreply] at hredirect
        obtain ⟨node, hmem, hhost, hport⟩ :=
          ClusterCoordinator.exists_of_shouldRedirect hredirect
        obtain ⟨⟨id, hfind⟩, -⟩ := ClusterCoordinator.mem_liveNodes.mp hmem
        exact ⟨id, node, hfind, hhost, hport⟩
  | receive i k =>
    refine iff_of_true (fun queryHash entry hentry _ => ?_) trivial
    rw [findEntry_receive]
    exact hentry
  | _ => exact Iff.rfl

omit [StringHash] in
theorem kept_start (sites : Nat → ClusterSite) : Kept [] (start sites) := by
  intro i j queryHash entry hentry
  rw [start, UMap.find_empty] at hentry
  cases hentry

/-- The queries of a run are deduplicated exactly if every step fits. -/
theorem along_deduplicates_iff (sites : Nat → ClusterSite) (steps : List ClusterStep) :
    machine.Along StepDeduplicates [] (start sites) steps ↔
      machine.Along StepFits [] (start sites) steps :=
  Machine.along_congr (I := Kept) (fun _ _ a h _ => h.step a) (fun _ _ a h => h.deduplicates_iff a)
    (kept_start sites)

end ClusterState

/-! ## Two nodes -/

namespace ClusterState

/-- Texts by their length. -/
@[reducible]
def byLength : StringHash := ⟨String.length⟩

def twoSites (i : Nat) : ClusterSite :=
  ⟨if i = 0 then "a" else "b", if i = 0 then "10.0.0.1" else "10.0.0.2", "", 8600, 0⟩

def twoQueries : List ClusterStep :=
  [.query 0 ⟨"q", "", 0⟩ (some 1) 0, .broadcastHeartbeat 0, .receive 1 0,
    .query 1 ⟨"q", "", 0⟩ (some 1) 0]

/-- The second node has the first one's heartbeat. -/
def afterHeartbeat : ClusterState × List HeardHeartbeat :=
  (@machine byLength).run (start twoSites) (twoQueries.take 3)

def queryKey : String := @ClusterCoordinator.hashQuery byLength ⟨"q", "", 0⟩

/-- A node starts a query that another one advertises to it. -/
theorem twoQueries_not_deduplicated :
    ¬ (@machine byLength).Along (@StepDeduplicates byLength) [] (start twoSites) twoQueries := by
  rintro ⟨-, -, -, ⟨hfollow, -, -⟩, -⟩
  have hnone : @ClusterCoordinator.findEntry byLength (afterHeartbeat.1.coordinators 1) queryKey =
      none := by decide +kernel
  have hunregistered :
      ¬ @Registered byLength (afterHeartbeat.1.coordinators 1) queryKey := by
    rintro ⟨entry, hentry, -⟩
    cases hnone.symm.trans hentry
  have hadvertised : Advertises afterHeartbeat.2 afterHeartbeat.1 1 queryKey "a"
      ⟨"a", "10.0.0.1", 8600, 1, 0, 0, "", 0, [], 0⟩ := by
    constructor
    · decide +kernel
    · decide +kernel
    · decide +kernel
    · exact ⟨⟨1, ((@machine byLength).run (start twoSites) [twoQueries[0]]).1.coordinators 0
        |>.heartbeat 0, 0⟩, by decide +kernel, by decide +kernel, 1, by decide +kernel⟩
  obtain ⟨peerId, node, -, hredirect⟩ := hfollow hunregistered ⟨_, _, hadvertised⟩
  have hstarted : (@ClusterCoordinator.handleClusterQuery byLength
      (afterHeartbeat.1.coordinators 1) 0 0 ⟨"q", "", 0⟩ (some 1)).2.redirect = none := by
    decide +kernel
  cases hstarted.symm.trans hredirect

end ClusterState

end Alpine
