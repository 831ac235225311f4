import Alpine.Protocol.PeerMgr
import Alpine.Protocol.QuerySteps

/-!
# The stack of managers

`AlpineStack` passes what the transports report to the managers of peers and queries. Nothing it
calls when a connection closes looks at the status it gets back.
-/

namespace Alpine

open Lib

variable {π δ : Type}

structure Stack (δ : Type) where
  peerMgr : PeerMgr
  groupMgr : GroupMgr
  queryMgr : QueryMgr δ

namespace Stack

/-- Before any manager is initialized. -/
def new : Stack δ := ⟨PeerMgr.new, GroupMgr.new, QueryMgr.new⟩

variable (s : Stack δ)

/-- `none` when the base profiles have no result. -/
def registerTransport (peerId transport : Nat) : Option (Bool × Stack δ) := do
  let (status, peerMgr, groupMgr) ← s.peerMgr.registerTransport s.groupMgr peerId transport
  some (status, { s with peerMgr, groupMgr })

def handleConnectionClose (peerId : Nat) : Bool × Stack δ × List (MgrEvent π δ) :=
  let (_, queryMgr, events) := s.queryMgr.cancelAll peerId
  let (_, peerMgr) := s.peerMgr.deletePeer peerId
  (true, { s with queryMgr, peerMgr }, events)

def handleConnectionDeactivate (peerId : Nat) : Bool × Stack δ × List (MgrEvent π δ) :=
  let (_, queryMgr, events) := s.queryMgr.cancelAll peerId
  let (_, peerMgr) := s.peerMgr.deactivatePeer peerId
  (true, { s with queryMgr, peerMgr }, events)

end Stack

/-!
## A peer disconnects

`handleConnectionClose` and `handleConnectionDeactivate` leave the clean-up to `cancelAll`. That
takes its list of queries from a function that fills a copy, so the list it goes through is empty
and no query is cancelled, whether or not it involves the peer (`cancelAll_eq`).
-/

namespace QueryMgr

/-- The query's id is in the list of a peer. -/
def Listed (index : UMap Nat (List Nat)) (queryId peerId : Nat) : Prop :=
  ∃ idList, index.find peerId = some idList ∧ queryId ∈ idList

/-- The active query has the peer, is listed under it, or waits for it. -/
def InvolvesIn (m : QueryMgr δ) (queryId peerId : Nat) : Prop :=
  ∃ state, m.activeQueryIndex.find queryId = some state ∧
    (peerId ∈ state.query.peerIdList ∨ Listed m.activePeerQueryIndex queryId peerId ∨
      ∃ pending, state.pending = some pending ∧ (pending.find peerId).isSome)

def Involves (m : QueryMgr δ) (peerId : Nat) : Prop := ∃ queryId, m.InvolvesIn queryId peerId

/-- A query's state, results and places in the indexes are the same. -/
structure SameQuery (m m' : QueryMgr δ) (queryId : Nat) : Prop where
  active : m'.activeQueryIndex.find queryId = m.activeQueryIndex.find queryId
  past : m'.pastQueryIndex.find queryId = m.pastQueryIndex.find queryId
  activeResults : ∀ state, m.activeQueryIndex.find queryId = some state →
    m'.heap.get state.results = m.heap.get state.results
  pastResults : ∀ state, m.pastQueryIndex.find queryId = some state →
    m'.heap.get state.results = m.heap.get state.results
  activePeers : ∀ peerId,
    Listed m'.activePeerQueryIndex queryId peerId ↔ Listed m.activePeerQueryIndex queryId peerId
  pastPeers : ∀ peerId,
    Listed m'.pastPeerQueryIndex queryId peerId ↔ Listed m.pastPeerQueryIndex queryId peerId

theorem SameQuery.refl (m : QueryMgr δ) (queryId : Nat) : SameQuery m m queryId :=
  ⟨rfl, rfl, fun _ _ => rfl, fun _ _ => rfl, fun _ => Iff.rfl, fun _ => Iff.rfl⟩

/-- The peer is in no active query any more, and the queries without it are as before. -/
structure Disconnected (m m' : QueryMgr δ) (peerId : Nat) : Prop where
  gone : ¬ m'.Involves peerId
  others : ∀ queryId, ¬ m.InvolvesIn queryId peerId → SameQuery m m' queryId

theorem disconnected_self_iff (m : QueryMgr δ) (peerId : Nat) :
    Disconnected m m peerId ↔ ¬ m.Involves peerId :=
  ⟨fun hd => hd.gone, fun hn => ⟨hn, fun queryId _ => SameQuery.refl m queryId⟩⟩

end QueryMgr

namespace Stack

variable (s : Stack δ) (peerId : Nat)

theorem handleConnectionClose_eq :
    s.handleConnectionClose (π := π) peerId = (true, s, []) := by
  unfold handleConnectionClose
  rw [QueryMgr.cancelAll_eq]
  rfl

theorem handleConnectionDeactivate_eq :
    s.handleConnectionDeactivate (π := π) peerId = (true, s, []) := by
  unfold handleConnectionDeactivate
  rw [QueryMgr.cancelAll_eq]
  rfl

/-- A peer's disconnection does what it should exactly if no active query involves the peer. -/
theorem disconnected_iff :
    (QueryMgr.Disconnected s.queryMgr (s.handleConnectionClose (π := π) peerId).2.1.queryMgr
        peerId ↔ ¬ s.queryMgr.Involves peerId) ∧
      (QueryMgr.Disconnected s.queryMgr
        (s.handleConnectionDeactivate (π := π) peerId).2.1.queryMgr peerId ↔
          ¬ s.queryMgr.Involves peerId) := by
  rw [handleConnectionClose_eq, handleConnectionDeactivate_eq]
  exact ⟨s.queryMgr.disconnected_self_iff peerId, s.queryMgr.disconnected_self_iff peerId⟩

/-- A query for which peer 5 sent an offer. -/
def offered : List (QueryMgr.Input Empty Empty) :=
  [.initializeMgr 10,
    .createQuery ⟨"default", .empty, 100, 128⟩ [] true,
    .indexQuery 0,
    .handleQueryOffer 5 0 0 { QueryPacket.fresh .queryOffer with numHits := 3 } (some 77)]

/-- The query still waits for the peer after its connection closed. -/
theorem offered_not_disconnected :
    let m := ((@QueryMgr.machine Empty Empty ResourceHash.bySize).run QueryMgr.new offered).1
    ¬ QueryMgr.Disconnected m
      ((⟨PeerMgr.new, GroupMgr.new, m⟩ : Stack Empty).handleConnectionClose
        (π := Empty) 5).2.1.queryMgr 5 := by
  intro m hd
  rw [handleConnectionClose_eq] at hd
  exact hd.gone ⟨0, _, rfl, .inr (.inr ⟨_, rfl, rfl⟩)⟩

end Stack

end Alpine
