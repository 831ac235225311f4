import Alpine.Lib.Heap
import Alpine.Lib.Run
import Alpine.Protocol.QueryResults
import Mathlib.Data.List.Sort

/-!
# The query manager

`AlpineQueryMgr` has the active and the past queries by their id, and for each peer the ids of the
queries it takes part in. A query's results object is allocated on the heap and its address kept in
the query's state. `createQuery` indexes the query under a lock of its own, some time after it took
an id and started the query: in between the state is in `started`, under the address of its results.

What `AlpineQuery` answers is in `Query`; the source has stubs there, with no peers and always in
progress. Whether `startQuery` succeeds, the
request id that the transport gives to a response, and the variables that are read before they are
set are inputs.
-/

namespace Alpine

open Lib

variable {π δ : Type}

/-- `AlpineQuery`, as the manager sees it. -/
structure Query where
  peerIdList : List Nat
  inProgress : Bool
  deriving DecidableEq, Repr

/-- What `t_QueryState` has while the query is active and after. -/
structure PastQuery where
  queryId : Nat
  priority : UInt8
  results : Nat
  pending : Option (UMap Nat Nat)
  onResultCallback : Option Nat
  deriving DecidableEq

/-- `t_QueryState` of an active query: `query` is only present while active. -/
structure QueryState extends PastQuery where
  query : Query
  deriving DecidableEq

/-- What an operation of the manager does besides changing its state. -/
inductive MgrEvent (π δ : Type) where
  | peerMgr (call : PeerCall)
  | sendReliablePacket (peerId : Nat) (packet : QueryPacket π δ)
  | acknowledgeTransfer (peerId requestId : Nat)
  | resultCallback (callback queryId peerId : Nat)
  /-- The ids that `processTimedEvents` returns. -/
  | completed (queryIds : List Nat)
  /-- The results object at this address is deleted. -/
  | released (results : Nat)
  /-- A results object is read or deleted after it was deleted. -/
  | usedAfterRelease (results : Nat)
  /-- `currState->pending->find` without an index of pending replies. -/
  | nullPending (queryId : Nat)
  /-- `activeQueryIndex_s->emplace` after `cleanUp`. -/
  | nullIndex (queryId : Nat)

structure QueryMgr (δ : Type) where
  initialized : Bool
  maxConcurrent : Nat
  currQueryId : Nat
  activeQueryIndex : UMap Nat QueryState
  pastQueryIndex : UMap Nat PastQuery
  activePeerQueryIndex : UMap Nat (List Nat)
  pastPeerQueryIndex : UMap Nat (List Nat)
  started : UMap Nat QueryState
  heap : Heap (QueryResults δ)

namespace QueryMgr

/-- Before `initializeMgr`. -/
def new : QueryMgr δ :=
  { initialized := false, maxConcurrent := 0, currQueryId := 0, activeQueryIndex := ∅
    pastQueryIndex := ∅, activePeerQueryIndex := ∅, pastPeerQueryIndex := ∅, started := ∅
    heap := Heap.empty }

abbrev Outcome (π δ : Type) : Type := Bool × QueryMgr δ × List (MgrEvent π δ)

variable (m : QueryMgr δ)

def initializeMgr (maxConcurrent : Nat) : Bool × QueryMgr δ :=
  if m.initialized then (false, m)
  else
    (true, { m with
      initialized := true
      maxConcurrent
      activeQueryIndex := ∅
      pastQueryIndex := ∅
      activePeerQueryIndex := ∅
      pastPeerQueryIndex := ∅ })

/-- Delete the results object at an address. -/
def release (results : Nat) : QueryMgr δ × List (MgrEvent π δ) :=
  if (m.heap.get results).isSome then
    ({ m with heap := m.heap.free results }, [.released results])
  else (m, [.usedAfterRelease results])

/-- The state that `createQuery` builds. -/
def newState (options : QueryOptions) (peerIdList : List Nat) : QueryState :=
  { queryId := m.currQueryId, priority := options.priority, results := m.heap.next
    pending := none, onResultCallback := none, query := { peerIdList, inProgress := true } }

/-- A new id is taken and the results object allocated. -/
def allocated (options : QueryOptions) : QueryMgr δ :=
  { m with
    currQueryId := (m.currQueryId + 1) % 2 ^ 64
    heap := m.heap.alloc (QueryResults.new m.currQueryId options) }

/-- `createQuery` up to the start of the query. A query that does not start is deleted with its
results. The address of the results names the call. -/
def createQuery (options : QueryOptions) (peerIdList : List Nat) (startQuery : Bool) :
    Outcome π δ :=
  if m.initialized = false then (false, m, [])
  else
    let newState := m.newState options peerIdList
    let m := m.allocated options
    if startQuery = false then
      let (m, events) := m.release newState.results
      (false, m, events)
    else (true, { m with started := m.started.assign newState.results newState }, [])

/-- The id is added to the list of a peer. -/
def pushQueryId (queryId : Nat) (index : UMap Nat (List Nat)) (peerId : Nat) :
    UMap Nat (List Nat) :=
  match index.find peerId with
  | none => index.emplace peerId [queryId]
  | some idList => index.assign peerId (idList ++ [queryId])

/-- `createQuery` from its `WriteLock` on. A state that finds its id in the index is deleted. -/
def indexQuery (results : Nat) : Outcome π δ :=
  match m.started.find results with
  | none => (false, m, [])
  | some newState =>
    let m := { m with started := m.started.erase results }
    if m.initialized = false then
      let (m, events) := m.release newState.results
      (false, m, .nullIndex newState.queryId :: events)
    else
      let m := { m with
        activePeerQueryIndex :=
          newState.query.peerIdList.foldl (pushQueryId newState.queryId) m.activePeerQueryIndex }
      if (m.activeQueryIndex.find newState.queryId).isSome then
        let (m, events) := m.release newState.results
        (true, m, events)
      else
        (true, { m with
          activeQueryIndex := m.activeQueryIndex.emplace newState.queryId newState }, [])

/-- The id is moved from the peer's active list to the past one. -/
def moveQueryId (queryId : Nat) (index : UMap Nat (List Nat) × UMap Nat (List Nat))
    (peerId : Nat) : UMap Nat (List Nat) × UMap Nat (List Nat) :=
  match index.1.find peerId with
  | none => index
  | some idList =>
    (index.1.assign peerId (idList.filter (· ≠ queryId)), pushQueryId queryId index.2 peerId)

/-- `AlpineQuery::cancel` and `getPeerIdList` return true. -/
def cancelQuery (queryId : Nat) : Outcome π δ :=
  if m.initialized = false then (false, m, [])
  else
    match m.activeQueryIndex.find queryId with
    | none => (false, m, [])
    | some currState =>
      let (activePeerQueryIndex, pastPeerQueryIndex) :=
        currState.query.peerIdList.foldl (moveQueryId queryId)
          (m.activePeerQueryIndex, m.pastPeerQueryIndex)
      let m := { m with
        activeQueryIndex := m.activeQueryIndex.erase queryId
        activePeerQueryIndex
        pastPeerQueryIndex }
      if (m.pastQueryIndex.find queryId).isSome then
        let (m, events) := m.release currState.results
        (true, m, events)
      else
        (true, { m with
          pastQueryIndex := m.pastQueryIndex.emplace queryId currState.toPastQuery }, [])

/-- The list is passed by value: the caller's stays as it was. -/
def getAllActiveQueryIds (queryIdList : List Nat) : Bool × List Nat := (m.initialized, queryIdList)

/-- The loop of `cancelAll`. -/
def cancelEach (m : QueryMgr δ) : List Nat → QueryMgr δ × List (MgrEvent π δ)
  | [] => (m, [])
  | item :: queryIdList =>
    let (_, m, events) := m.cancelQuery item
    let (m, rest) := m.cancelEach queryIdList
    (m, events ++ rest)

def cancelAll (_peerId : Nat) : Outcome π δ :=
  if m.initialized = false then (false, m, [])
  else
    let (status, queryIdList) := m.getAllActiveQueryIds []
    if status = false then (false, m, [])
    else
      let (m, events) := m.cancelEach queryIdList
      (true, m, events)

def registerResultCallback (queryId callback : Nat) : Bool × QueryMgr δ :=
  if m.initialized = false then (false, m)
  else
    match m.activeQueryIndex.find queryId with
    | none => (false, m)
    | some currState =>
      (true, { m with
        activeQueryIndex :=
          m.activeQueryIndex.assign queryId { currState with onResultCallback := some callback } })

/-- What the two handlers below have in common: the results take the packet, and what they ask for
is answered. `queryId` is what the handler's variable holds after `getQueryId`. -/
def handlePacket (peerId queryId : Nat) (process : QueryResults δ → QueryResults.Processed π δ)
    (answer : QueryMgr δ → QueryState → QueryPacket π δ → Outcome π δ) : Outcome π δ :=
  if m.initialized = false then (false, m, [])
  else
    match m.activeQueryIndex.find queryId with
    | none => (false, m, [.peerMgr (.badPacketReceived peerId)])
    | some currState =>
      match m.heap.get currState.results with
      | none => (false, m, [.usedAfterRelease currState.results])
      | some results =>
        let (_, results, calls, response) := process results
        let m := { m with heap := m.heap.write currState.results results }
        let events := calls.map MgrEvent.peerMgr
        match response with
        | none => (false, m, events ++ [.peerMgr (.badPacketReceived peerId)])
        | some packet =>
          let (status, m, rest) := answer m currState packet
          (status, m, events ++ rest)

/-- The part of `handleQueryOffer` after the results took the packet. -/
def answerOffer (peerId queryId : Nat) (requestId : Option Nat) (m : QueryMgr δ)
    (currState : QueryState) (packet : QueryPacket π δ) : Outcome π δ :=
  match requestId with
  | none => (false, m, [.sendReliablePacket peerId packet])
  | some requestId =>
    let pending := (currState.pending.getD ∅).emplace peerId requestId
    (true, { m with
      activeQueryIndex :=
        m.activeQueryIndex.assign queryId { currState with pending := some pending } },
      [.sendReliablePacket peerId packet])

/-- `verifyId` is what the variable of `verifyQueryOffer` holds; `requestId` is the transport's
answer to the response. -/
def handleQueryOffer (peerId queryId verifyId : Nat) (offerPacket : QueryPacket π δ)
    (requestId : Option Nat) : Outcome π δ :=
  m.handlePacket peerId queryId (fun results => results.processQueryOffer peerId verifyId offerPacket)
    (answerOffer peerId queryId requestId)

/-- What a query's callback is told of a reply. -/
def callResult (currState : QueryState) (queryId peerId : Nat) : List (MgrEvent π δ) :=
  match currState.onResultCallback with
  | none => []
  | some callback => [.resultCallback callback queryId peerId]

/-- A request that is still pending is acknowledged. -/
def acknowledgePending (pending : UMap Nat Nat) (peerId : Nat) :
    UMap Nat Nat × List (MgrEvent π δ) :=
  match pending.find peerId with
  | none => (pending, [])
  | some requestId => (pending.erase peerId, [.acknowledgeTransfer peerId requestId])

/-- The part of `handleQueryReply` after the results took the packet. -/
def answerReply (peerId queryId : Nat) (requestId : Option Nat) (m : QueryMgr δ)
    (currState : QueryState) (packet : QueryPacket π δ) : Outcome π δ :=
  match currState.pending with
  | none => (false, m, [.nullPending queryId])
  | some pending =>
    let (pending, acknowledged) := acknowledgePending pending peerId
    let events := acknowledged ++ [.sendReliablePacket peerId packet]
    match requestId with
    | none =>
      (false, { m with
        activeQueryIndex :=
          m.activeQueryIndex.assign queryId { currState with pending := some pending } }, events)
    | some requestId =>
      let pending := pending.emplace peerId requestId
      (true, { m with
        activeQueryIndex :=
          m.activeQueryIndex.assign queryId { currState with pending := some pending } },
        events ++ callResult currState queryId peerId)

def handleQueryReply [ResourceHash] (peerId queryId verifyId : Nat) (replyPacket : QueryPacket π δ)
    (requestId : Option Nat) : Outcome π δ :=
  m.handlePacket peerId queryId (fun results => results.processQueryReply peerId verifyId replyPacket)
    (answerReply peerId queryId requestId)

/-- The loop of `removePendingRequest`; it ends at the first query with a pending request. -/
def removePending (m : QueryMgr δ) (peerId : Nat) : List Nat → Bool × QueryMgr δ
  | [] => (true, m)
  | queryItem :: queryList =>
    match m.activeQueryIndex.find queryItem with
    | none => (false, m)
    | some currState =>
      match currState.pending with
      | none => m.removePending peerId queryList
      | some pending =>
        if (pending.find peerId).isSome then
          (true, { m with
            activeQueryIndex :=
              m.activeQueryIndex.assign queryItem
                { currState with pending := some (pending.erase peerId) } })
        else m.removePending peerId queryList

def removePendingRequest (peerId : Nat) : Bool × QueryMgr δ :=
  match m.activePeerQueryIndex.find peerId with
  | none => (true, m)
  | some queryList => m.removePending peerId queryList

def handleSendReceived (peerId _requestId : Nat) : Bool × QueryMgr δ :=
  if m.initialized = false then (false, m) else m.removePendingRequest peerId

def handleSendFailure (peerId _requestId : Nat) : Outcome π δ :=
  if m.initialized = false then (false, m, [])
  else
    let (status, m) := m.removePendingRequest peerId
    (status, m, [.peerMgr (.reliableTransferFailed peerId)])

/-- The ids of the active queries that are complete, those of a higher priority first. -/
def processTimedEvents : List Nat :=
  if m.initialized = false then []
  else
    let sortedQueries :=
      m.activeQueryIndex.entries.mergeSort fun a b => decide (a.2.priority ≥ b.2.priority)
    (sortedQueries.filter fun pq => !pq.2.query.inProgress).map (·.1)

def exists? (queryId : Nat) : Bool :=
  if m.initialized = false then false
  else if (m.activeQueryIndex.find queryId).isSome then true
  else (m.pastQueryIndex.find queryId).isSome

/-- Whether the status was filled in. `AlpineQuery::getStatus` returns true. -/
def getQueryStatus (queryId : Nat) : Bool :=
  if m.initialized = false then false
  else if (m.activeQueryIndex.find queryId).isSome then true
  else (m.pastQueryIndex.find queryId).isSome

/-- The address of the results of an active query. -/
def getQueryResults (queryId : Nat) : Option Nat :=
  if m.initialized = false then none
  else (m.activeQueryIndex.find queryId).map (·.results)

/-- Delete the results objects at these addresses. -/
def releaseEach (m : QueryMgr δ) : List Nat → QueryMgr δ × List (MgrEvent π δ)
  | [] => (m, [])
  | results :: list =>
    let (m, events) := m.release results
    let (m, rest) := m.releaseEach list
    (m, events ++ rest)

/-- The indexes are deleted with the states they hold. -/
def cleanUp : QueryMgr δ × List (MgrEvent π δ) :=
  if m.initialized = false then (m, [])
  else
    let held := m.activeQueryIndex.entries.map (·.2.results) ++
      m.pastQueryIndex.entries.map (·.2.results)
    let (m, events) := m.releaseEach held
    ({ m with
      initialized := false
      activeQueryIndex := ∅
      pastQueryIndex := ∅
      activePeerQueryIndex := ∅
      pastPeerQueryIndex := ∅ }, events)

/-! ## Completion

A query completes on its own, before or after it is indexed. -/

def finished (state : QueryState) : QueryState :=
  { state with query := { state.query with inProgress := false } }

def complete (queryId : Nat) : QueryMgr δ :=
  match m.activeQueryIndex.find queryId with
  | none => m
  | some state => { m with activeQueryIndex := m.activeQueryIndex.assign queryId (finished state) }

def completeStarted (results : Nat) : QueryMgr δ :=
  match m.started.find results with
  | none => m
  | some state => { m with started := m.started.assign results (finished state) }

/-! ## Runs -/

inductive Input (π δ : Type) where
  | initializeMgr (maxConcurrent : Nat)
  | createQuery (options : QueryOptions) (peerIdList : List Nat) (startQuery : Bool)
  | indexQuery (results : Nat)
  | cancelQuery (queryId : Nat)
  | cancelAll (peerId : Nat)
  | registerResultCallback (queryId callback : Nat)
  | handleQueryOffer (peerId queryId verifyId : Nat) (offerPacket : QueryPacket π δ)
      (requestId : Option Nat)
  | handleQueryReply (peerId queryId verifyId : Nat) (replyPacket : QueryPacket π δ)
      (requestId : Option Nat)
  | handleSendReceived (peerId requestId : Nat)
  | handleSendFailure (peerId requestId : Nat)
  | processTimedEvents
  | cleanUp
  | complete (queryId : Nat)
  | completeStarted (results : Nat)

/-- A call of the manager, and its status. -/
def call [ResourceHash] : Input π δ → Outcome π δ
  | .initializeMgr maxConcurrent =>
    let (status, m) := m.initializeMgr maxConcurrent
    (status, m, [])
  | .createQuery options peerIdList startQuery => m.createQuery options peerIdList startQuery
  | .indexQuery results => m.indexQuery results
  | .cancelQuery queryId => m.cancelQuery queryId
  | .cancelAll peerId => m.cancelAll peerId
  | .registerResultCallback queryId callback =>
    let (status, m) := m.registerResultCallback queryId callback
    (status, m, [])
  | .handleQueryOffer peerId queryId verifyId offerPacket requestId =>
    m.handleQueryOffer peerId queryId verifyId offerPacket requestId
  | .handleQueryReply peerId queryId verifyId replyPacket requestId =>
    m.handleQueryReply peerId queryId verifyId replyPacket requestId
  | .handleSendReceived peerId requestId =>
    let (status, m) := m.handleSendReceived peerId requestId
    (status, m, [])
  | .handleSendFailure peerId requestId => m.handleSendFailure peerId requestId
  | .processTimedEvents => (true, m, [.completed m.processTimedEvents])
  | .cleanUp =>
    let (m, events) := m.cleanUp
    (true, m, events)
  | .complete queryId => (true, m.complete queryId, [])
  | .completeStarted results => (true, m.completeStarted results, [])

def machine [ResourceHash] : Machine (QueryMgr δ) (Input π δ) (MgrEvent π δ) where
  step m input := (m.call input).2

end QueryMgr

end Alpine
