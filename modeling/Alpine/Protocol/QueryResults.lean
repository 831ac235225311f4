import Alpine.Lib.UMap
import Alpine.Protocol.QueryPacket

/-!
# The results of a query

`AlpineQueryResults` collects what the peers answer to one query. An offer opens a reply state for
its peer and is answered with a request; a reply adds its resources and is answered with the next
request. What the manager of the peers is told on the way is a list of `PeerCall`s.

`AlpineQueryPacket::getQueryId` stores its argument in the packet and returns nothing. The local
variable that a caller passes to it was never set, so what the caller reads there afterwards is an
input, `queryId`.

The set of descriptions is a list: its room, its count and its offset move together.
-/

namespace Alpine

open Lib

variable {π δ : Type}

/-- `std::hash` of a locator and a size. -/
class ResourceHash where
  hash : CString → Nat → Nat

/-- The hash is the size. -/
abbrev ResourceHash.bySize : ResourceHash := ⟨fun _ size => size⟩

/-- A call to `AlpinePeerMgr`. -/
inductive PeerCall where
  | badPacketReceived (peerId : Nat)
  | reliableTransferFailed (peerId : Nat)
  | banPeer (peerId : Nat)
  deriving DecidableEq, Repr

/-- `AlpineQueryOptions`, as far as a query and its results use them. -/
structure QueryOptions where
  group : String
  query : CString
  maxDescPerPeer : Nat
  priority : UInt8
  deriving DecidableEq

structure ReplyState (δ : Type) where
  peerId : Nat
  expectedTotal : Nat
  duplicateCount : Nat
  resourceDescSet : List (ResourceDesc δ)
  deriving DecidableEq

def ReplyState.currOffset (state : ReplyState δ) : Nat := state.resourceDescSet.length

/-- `AlpineProtocol::maxDuplicateRecv_s`. -/
def maxDuplicateRecv : Nat := 10

/-- `USHRT_MAX`. -/
def ushrtMax : Nat := 65535

structure QueryResults (δ : Type) where
  queryId : Nat
  expectedResourceTotal : Nat
  currResourceTotal : Nat
  numPeers : Nat
  replyIndex : UMap Nat (ReplyState δ)
  queryOptions : QueryOptions
  seenResources : List Nat

namespace QueryResults

def new (queryId : Nat) (queryOptions : QueryOptions) : QueryResults δ :=
  { queryId, expectedResourceTotal := 0, currResourceTotal := 0, numPeers := 0, replyIndex := ∅
    queryOptions, seenResources := [] }

def numResources (r : QueryResults δ) : Nat := r.currResourceTotal

def getPeerList (r : QueryResults δ) : List Nat := r.replyIndex.keys

/-- The state of a peer that sent too many duplicates is deleted. -/
def banned (r : QueryResults δ) (peerId : Nat) (state : ReplyState δ) : QueryResults δ :=
  { r with
    expectedResourceTotal := (r.expectedResourceTotal + 2 ^ 64 - state.expectedTotal) % 2 ^ 64
    replyIndex := r.replyIndex.erase peerId }

/-- A duplicate is counted, and is never a valid packet. -/
def duplicate (r : QueryResults δ) (peerId : Nat) (state : ReplyState δ) :
    Bool × QueryResults δ × List PeerCall :=
  let state := { state with duplicateCount := (state.duplicateCount + 1) % 2 ^ 16 }
  if state.duplicateCount ≥ maxDuplicateRecv then
    (false, r.banned peerId state, [.banPeer peerId])
  else (false, { r with replyIndex := r.replyIndex.assign peerId state }, [])

def verifyQueryOffer (r : QueryResults δ) (peerId queryId : Nat) (offer : QueryPacket π δ) :
    Bool × QueryResults δ × List PeerCall :=
  if offer.packetType ≠ .queryOffer then (false, r, [.badPacketReceived peerId])
  else if queryId ≠ r.queryId then (false, r, [.badPacketReceived peerId])
  else
    match r.replyIndex.find peerId with
    | some state => r.duplicate peerId state
    | none =>
      let state := { peerId, expectedTotal := 0, duplicateCount := 0, resourceDescSet := [] }
      (true, { r with
        replyIndex := r.replyIndex.emplace peerId state
        numPeers := (r.numPeers + 1) % 2 ^ 64 }, [])

def verifyQueryReply (r : QueryResults δ) (peerId queryId : Nat) (reply : QueryPacket π δ) :
    Bool × QueryResults δ × List PeerCall :=
  if reply.packetType ≠ .queryReply then (false, r, [.badPacketReceived peerId])
  else if queryId ≠ r.queryId then (false, r, [.badPacketReceived peerId])
  else
    match r.replyIndex.find peerId with
    | none => (false, r, [.badPacketReceived peerId])
    | some state =>
      if reply.offset > state.currOffset then (false, r, [.badPacketReceived peerId])
      else if reply.offset ≠ state.currOffset then r.duplicate peerId state
      else (true, r, [])

/-- What is asked for next. -/
def populateQueryRequest (r : QueryResults δ) (state : ReplyState δ) : QueryPacket π δ :=
  let desiredSetSize := (state.expectedTotal + 2 ^ 64 - state.currOffset) % 2 ^ 64
  { QueryPacket.fresh .queryRequest with
    queryId := r.queryId
    queryString := r.queryOptions.query
    offset := state.currOffset
    replySetSize := min desiredSetSize ushrtMax
    optionId := 0 }

/-- The status, the results, the calls and the request for the peer. -/
abbrev Processed (π δ : Type) : Type :=
  Bool × QueryResults δ × List PeerCall × Option (QueryPacket π δ)

def processQueryOffer (r : QueryResults δ) (peerId queryId : Nat) (offer : QueryPacket π δ) :
    Processed π δ :=
  let (status, r, calls) := r.verifyQueryOffer peerId queryId offer
  if status = false then (false, r, calls, none)
  else
    match r.replyIndex.find peerId with
    | none => (false, r, calls, none)
    | some state =>
      let replyHitCount := min offer.numHits r.queryOptions.maxDescPerPeer
      let state := { state with expectedTotal := replyHitCount }
      let r := { r with
        replyIndex := r.replyIndex.assign peerId state
        expectedResourceTotal := (r.expectedResourceTotal + replyHitCount) % 2 ^ 64 }
      (true, r, calls, some (r.populateQueryRequest state))

/-- The loop over the resources of a reply: those not seen before are counted. -/
def countUnique [ResourceHash] (seen : List Nat) (uniqueCount : Nat) :
    List (ResourceDesc δ) → List Nat × Nat
  | [] => (seen, uniqueCount)
  | desc :: list =>
    let h := ResourceHash.hash (desc.locatorList.head?.getD .empty) desc.size
    if h ∈ seen then countUnique seen uniqueCount list
    else countUnique (h :: seen) ((uniqueCount + 1) % 2 ^ 16) list

/-- A packet without a list has none to add. -/
def processQueryReply [ResourceHash] (r : QueryResults δ) (peerId queryId : Nat)
    (reply : QueryPacket π δ) : Processed π δ :=
  let (status, r, calls) := r.verifyQueryReply peerId queryId reply
  if status = false then (false, r, calls, none)
  else
    match r.replyIndex.find peerId, reply.resourceList with
    | none, _ => (false, r, calls, none)
    | some _, none => (false, r, calls, none)
    | some state, some replyResources =>
      let state := { state with resourceDescSet := state.resourceDescSet ++ replyResources }
      let (seenResources, uniqueCount) := countUnique r.seenResources 0 replyResources
      let r := { r with
        replyIndex := r.replyIndex.assign peerId state
        seenResources
        currResourceTotal := (r.currResourceTotal + uniqueCount) % 2 ^ 64 }
      (true, r, calls, some (r.populateQueryRequest state))

end QueryResults

end Alpine
