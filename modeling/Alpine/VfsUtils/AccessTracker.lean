import Mathlib.Algebra.Ring.Nat
import Alpine.Lib.Run
import Alpine.Lib.StdSort

/-!
# The access tracker

The counters are to be what
the accesses since the last reset add up to (`Consistent`); counters are `ulong`.

Whether a resource is new for the peer is decided by the resource's count, which the peers share.
The counters stay right exactly as long as every resource that is accessed again was already
accessed from the same peer, and no counter wraps (`along_consistent_iff_sameSource`).
-/

namespace Alpine

open Lib

structure ResourceStats where
  resourceId : Nat
  peerId : Nat
  description : String
  accessCount : Nat
  totalBytesRead : Nat
  lastAccessTime : Nat
  deriving DecidableEq

structure PeerStats where
  peerId : Nat
  aggregateAccessCount : Nat
  aggregateBytesRead : Nat
  distinctResourcesAccessed : Nat
  lastAccessTime : Nat
  deriving DecidableEq

structure QueryTermStats where
  queryTerm : String
  accessCount : Nat
  lastAccessTime : Nat
  deriving DecidableEq

structure AccessTracker where
  resourceStats : UMap Nat ResourceStats
  peerStats : UMap Nat PeerStats
  queryTermStats : UMap String QueryTermStats

/-- An access, with the time that was read for it. -/
structure Access where
  resourceId : Nat
  peerId : Nat
  description : String
  bytesRead : Nat
  now : Nat
  deriving DecidableEq

inductive TrackerCall where
  | recordResourceAccess (a : Access)
  | recordQueryAccess (queryTerm : String) (now : Nat)
  | reset

inductive TrackerEvent where
  | accessed (a : Access)
  | wasReset

namespace AccessTracker

def new : AccessTracker where
  resourceStats := ∅
  peerStats := ∅
  queryTermStats := ∅

/-- `operator[]` makes an entry of zeros. -/
def recordResourceAccess (s : AccessTracker) (a : Access) : AccessTracker :=
  let rs := (s.resourceStats.find a.resourceId).getD ⟨0, 0, "", 0, 0, 0⟩
  let rs : ResourceStats :=
    { resourceId := a.resourceId
      peerId := a.peerId
      description := a.description
      accessCount := (rs.accessCount + 1) % 2 ^ 64
      totalBytesRead := (rs.totalBytesRead + a.bytesRead) % 2 ^ 64
      lastAccessTime := a.now }
  let ps := (s.peerStats.find a.peerId).getD ⟨0, 0, 0, 0, 0⟩
  let ps : PeerStats :=
    { peerId := a.peerId
      aggregateAccessCount := (ps.aggregateAccessCount + 1) % 2 ^ 64
      aggregateBytesRead := (ps.aggregateBytesRead + a.bytesRead) % 2 ^ 64
      distinctResourcesAccessed :=
        if rs.accessCount = 1 then (ps.distinctResourcesAccessed + 1) % 2 ^ 64
        else ps.distinctResourcesAccessed
      lastAccessTime := a.now }
  { s with
    resourceStats := s.resourceStats.assign a.resourceId rs
    peerStats := s.peerStats.assign a.peerId ps }

def recordQueryAccess (s : AccessTracker) (queryTerm : String) (now : Nat) : AccessTracker :=
  let qs := (s.queryTermStats.find queryTerm).getD ⟨"", 0, 0⟩
  { s with queryTermStats :=
      s.queryTermStats.assign queryTerm ⟨queryTerm, (qs.accessCount + 1) % 2 ^ 64, now⟩ }

def getResourceStats (s : AccessTracker) (resourceId : Nat) : Option ResourceStats :=
  s.resourceStats.find resourceId

def getPeerStats (s : AccessTracker) (peerId : Nat) : Option PeerStats := s.peerStats.find peerId

def allResources (s : AccessTracker) : List ResourceStats :=
  (AList.entries s.resourceStats).map fun e => e.2

def getMostAccessedResources (std : StdSort ResourceStats) (s : AccessTracker) (limit : Nat) :
    List ResourceStats :=
  (std.sort ResourceStats.accessCount s.allResources).take limit

def getMostRecentResources (std : StdSort ResourceStats) (s : AccessTracker) (limit : Nat) :
    List ResourceStats :=
  (std.sort ResourceStats.lastAccessTime s.allResources).take limit

def step (s : AccessTracker) : TrackerCall → AccessTracker × List TrackerEvent
  | .recordResourceAccess a => (s.recordResourceAccess a, [.accessed a])
  | .recordQueryAccess queryTerm now => (s.recordQueryAccess queryTerm now, [])
  | .reset => (new, [.wasReset])

def machine : Machine AccessTracker TrackerCall TrackerEvent := ⟨step⟩

/-! ## What the counters are to be -/

/-- The accesses since the last reset. -/
def sinceReset (history : List TrackerEvent) : List Access :=
  history.foldl (fun accesses e =>
    match e with
    | .accessed a => accesses ++ [a]
    | .wasReset => []) []

def ofResource (accesses : List Access) (resourceId : Nat) : List Access :=
  accesses.filter fun a => a.resourceId = resourceId

def ofPeer (accesses : List Access) (peerId : Nat) : List Access :=
  accesses.filter fun a => a.peerId = peerId

def bytes (accesses : List Access) : Nat := (accesses.map Access.bytesRead).sum

/-- How many resources the accesses are of. -/
def distinct (accesses : List Access) : Nat := (accesses.map Access.resourceId).toFinset.card

def resourceTotals (accesses : List Access) (resourceId : Nat) : Option ResourceStats :=
  (ofResource accesses resourceId).getLast?.map fun last =>
    { resourceId
      peerId := last.peerId
      description := last.description
      accessCount := (ofResource accesses resourceId).length
      totalBytesRead := bytes (ofResource accesses resourceId)
      lastAccessTime := last.now }

def peerTotals (accesses : List Access) (peerId : Nat) : Option PeerStats :=
  (ofPeer accesses peerId).getLast?.map fun last =>
    { peerId
      aggregateAccessCount := (ofPeer accesses peerId).length
      aggregateBytesRead := bytes (ofPeer accesses peerId)
      distinctResourcesAccessed := distinct (ofPeer accesses peerId)
      lastAccessTime := last.now }

/-- The totals of all resources that were accessed. -/
def recordedResources (accesses : List Access) : List ResourceStats :=
  (accesses.map Access.resourceId).dedup.filterMap (resourceTotals accesses)

/-- Every answer is what the accesses add up to. -/
structure Consistent (std : StdSort ResourceStats) (accesses : List Access) (s : AccessTracker) :
    Prop where
  resources : ∀ resourceId, s.getResourceStats resourceId = resourceTotals accesses resourceId
  peers : ∀ peerId, s.getPeerStats peerId = peerTotals accesses peerId
  mostAccessed : ∀ limit, IsTop ResourceStats.accessCount limit (recordedResources accesses)
    (s.getMostAccessedResources std limit)
  mostRecent : ∀ limit, IsTop ResourceStats.lastAccessTime limit (recordedResources accesses)
    (s.getMostRecentResources std limit)

/-- The answers are right after the call. -/
def StepConsistent (std : StdSort ResourceStats) (history : List TrackerEvent) (s : AccessTracker)
    (c : TrackerCall) : Prop :=
  Consistent std (sinceReset (history ++ (s.step c).2)) (s.step c).1

/-- The resource is new, or was accessed from this peer before; and no counter wraps. -/
structure SameSource (accesses : List Access) (a : Access) : Prop where
  source : (∀ x ∈ accesses, x.resourceId ≠ a.resourceId) ∨
    ∃ x ∈ accesses, x.resourceId = a.resourceId ∧ x.peerId = a.peerId
  resourceCount : (ofResource accesses a.resourceId).length + 1 < 2 ^ 64
  resourceBytes : bytes (ofResource accesses a.resourceId) + a.bytesRead < 2 ^ 64
  peerCount : (ofPeer accesses a.peerId).length + 1 < 2 ^ 64
  peerBytes : bytes (ofPeer accesses a.peerId) + a.bytesRead < 2 ^ 64

def CallFits (history : List TrackerEvent) (_ : AccessTracker) : TrackerCall → Prop
  | .recordResourceAccess a => SameSource (sinceReset history) a
  | _ => True

/-! ## One access more -/

variable {accesses : List Access} {s : AccessTracker}

theorem ofResource_concat_self (accesses : List Access) (a : Access) :
    ofResource (accesses ++ [a]) a.resourceId = ofResource accesses a.resourceId ++ [a] := by
  simp [ofResource]

theorem ofResource_concat_ne (accesses : List Access) {a : Access} {resourceId : Nat}
    (h : resourceId ≠ a.resourceId) :
    ofResource (accesses ++ [a]) resourceId = ofResource accesses resourceId := by
  simp [ofResource, Ne.symm h]

theorem ofPeer_concat_self (accesses : List Access) (a : Access) :
    ofPeer (accesses ++ [a]) a.peerId = ofPeer accesses a.peerId ++ [a] := by
  simp [ofPeer]

theorem ofPeer_concat_ne (accesses : List Access) {a : Access} {peerId : Nat}
    (h : peerId ≠ a.peerId) : ofPeer (accesses ++ [a]) peerId = ofPeer accesses peerId := by
  simp [ofPeer, Ne.symm h]

theorem bytes_concat (accesses : List Access) (a : Access) :
    bytes (accesses ++ [a]) = bytes accesses + a.bytesRead := by
  simp [bytes]

theorem distinct_concat (accesses : List Access) (a : Access) :
    distinct (accesses ++ [a]) =
      if ∃ x ∈ accesses, x.resourceId = a.resourceId then distinct accesses
      else distinct accesses + 1 := by
  have hmem : a.resourceId ∈ (accesses.map Access.resourceId).toFinset ↔
      ∃ x ∈ accesses, x.resourceId = a.resourceId := by
    rw [List.mem_toFinset, List.mem_map]
  have hinsert : distinct (accesses ++ [a]) =
      (insert a.resourceId (accesses.map Access.resourceId).toFinset).card := by
    unfold distinct
    rw [List.map_append, List.map_singleton, List.toFinset_append, List.toFinset_cons,
      List.toFinset_nil, Finset.union_comm, insert_empty_eq, ← Finset.insert_eq]
  rw [hinsert]
  split
  · next h => rw [Finset.insert_eq_of_mem (hmem.mpr h)]; rfl
  · next h => exact Finset.card_insert_of_notMem fun hin => h (hmem.mp hin)

theorem distinct_le (accesses : List Access) : distinct accesses ≤ accesses.length :=
  (List.toFinset_card_le _).trans (List.length_map _).le

theorem resourceTotals_getD (accesses : List Access) (resourceId : Nat) :
    ((resourceTotals accesses resourceId).getD ⟨0, 0, "", 0, 0, 0⟩).accessCount =
        (ofResource accesses resourceId).length ∧
      ((resourceTotals accesses resourceId).getD ⟨0, 0, "", 0, 0, 0⟩).totalBytesRead =
        bytes (ofResource accesses resourceId) := by
  unfold resourceTotals
  cases hlast : (ofResource accesses resourceId).getLast? with
  | none =>
    rw [List.getLast?_eq_none_iff.mp hlast]
    exact ⟨rfl, rfl⟩
  | some last => exact ⟨rfl, rfl⟩

theorem peerTotals_getD (accesses : List Access) (peerId : Nat) :
    ((peerTotals accesses peerId).getD ⟨0, 0, 0, 0, 0⟩).aggregateAccessCount =
        (ofPeer accesses peerId).length ∧
      ((peerTotals accesses peerId).getD ⟨0, 0, 0, 0, 0⟩).aggregateBytesRead =
        bytes (ofPeer accesses peerId) ∧
      ((peerTotals accesses peerId).getD ⟨0, 0, 0, 0, 0⟩).distinctResourcesAccessed =
        distinct (ofPeer accesses peerId) := by
  unfold peerTotals
  cases hlast : (ofPeer accesses peerId).getLast? with
  | none =>
    rw [List.getLast?_eq_none_iff.mp hlast]
    exact ⟨rfl, rfl, rfl⟩
  | some last => exact ⟨rfl, rfl, rfl⟩

theorem resourceTotals_concat_self (accesses : List Access) (a : Access) :
    resourceTotals (accesses ++ [a]) a.resourceId = some
      { resourceId := a.resourceId
        peerId := a.peerId
        description := a.description
        accessCount := (ofResource accesses a.resourceId).length + 1
        totalBytesRead := bytes (ofResource accesses a.resourceId) + a.bytesRead
        lastAccessTime := a.now } := by
  unfold resourceTotals
  rw [ofResource_concat_self, List.getLast?_concat, Option.map_some, List.length_append,
    bytes_concat]
  rfl

theorem peerTotals_concat_self (accesses : List Access) (a : Access) :
    peerTotals (accesses ++ [a]) a.peerId = some
      { peerId := a.peerId
        aggregateAccessCount := (ofPeer accesses a.peerId).length + 1
        aggregateBytesRead := bytes (ofPeer accesses a.peerId) + a.bytesRead
        distinctResourcesAccessed := distinct (ofPeer accesses a.peerId ++ [a])
        lastAccessTime := a.now } := by
  unfold peerTotals
  rw [ofPeer_concat_self, List.getLast?_concat, Option.map_some, List.length_append,
    bytes_concat]
  rfl

/-- The tables hold the totals. -/
structure Agrees (accesses : List Access) (s : AccessTracker) : Prop where
  resources : ∀ resourceId, s.resourceStats.find resourceId = resourceTotals accesses resourceId
  peers : ∀ peerId, s.peerStats.find peerId = peerTotals accesses peerId

/-- The resource's count after an access. -/
def countAfter (accesses : List Access) (a : Access) : Nat :=
  ((ofResource accesses a.resourceId).length + 1) % 2 ^ 64

/-- What the two entries of an access become. -/
theorem recordResourceAccess_eq (h : Agrees accesses s) (a : Access) :
    s.recordResourceAccess a =
      { s with
        resourceStats := s.resourceStats.assign a.resourceId
          { resourceId := a.resourceId
            peerId := a.peerId
            description := a.description
            accessCount := countAfter accesses a
            totalBytesRead := (bytes (ofResource accesses a.resourceId) + a.bytesRead) % 2 ^ 64
            lastAccessTime := a.now }
        peerStats := s.peerStats.assign a.peerId
          { peerId := a.peerId
            aggregateAccessCount := ((ofPeer accesses a.peerId).length + 1) % 2 ^ 64
            aggregateBytesRead := (bytes (ofPeer accesses a.peerId) + a.bytesRead) % 2 ^ 64
            distinctResourcesAccessed :=
              if countAfter accesses a = 1 then (distinct (ofPeer accesses a.peerId) + 1) % 2 ^ 64
              else distinct (ofPeer accesses a.peerId)
            lastAccessTime := a.now } } := by
  obtain ⟨hcount, hbytes⟩ := resourceTotals_getD accesses a.resourceId
  obtain ⟨hpcount, hpbytes, hdistinct⟩ := peerTotals_getD accesses a.peerId
  unfold recordResourceAccess countAfter
  dsimp only
  rw [h.resources, h.peers, hcount, hbytes, hpcount, hpbytes, hdistinct]

/-- The source of an access decides whether the peer's number of resources becomes right. -/
theorem distinct_after_iff {a : Access}
    (hcount : (ofResource accesses a.resourceId).length + 1 < 2 ^ 64)
    (hpeer : (ofPeer accesses a.peerId).length + 1 < 2 ^ 64) :
    (if countAfter accesses a = 1 then (distinct (ofPeer accesses a.peerId) + 1) % 2 ^ 64
      else distinct (ofPeer accesses a.peerId)) = distinct (ofPeer accesses a.peerId ++ [a]) ↔
    (∀ x ∈ accesses, x.resourceId ≠ a.resourceId) ∨
      ∃ x ∈ accesses, x.resourceId = a.resourceId ∧ x.peerId = a.peerId := by
  have hsame : (∃ x ∈ ofPeer accesses a.peerId, x.resourceId = a.resourceId) ↔
      ∃ x ∈ accesses, x.resourceId = a.resourceId ∧ x.peerId = a.peerId := by
    simp only [ofPeer, List.mem_filter, decide_eq_true_eq]
    exact exists_congr fun x => and_assoc.trans (and_congr_right' and_comm)
  have hnew : countAfter accesses a = 1 ↔ ∀ x ∈ accesses, x.resourceId ≠ a.resourceId := by
    unfold countAfter
    rw [Nat.mod_eq_of_lt hcount, Nat.add_eq_right, List.length_eq_zero_iff, ofResource,
      List.filter_eq_nil_iff]
    simp only [decide_eq_true_eq, ne_eq]
  have hle := distinct_le (ofPeer accesses a.peerId)
  rw [distinct_concat, if_congr hsame rfl rfl]
  by_cases hfirst : countAfter accesses a = 1
  · have hnone : ¬ ∃ x ∈ accesses, x.resourceId = a.resourceId ∧ x.peerId = a.peerId :=
      fun ⟨x, hx, hid, _⟩ => hnew.mp hfirst x hx hid
    rw [if_pos hfirst, if_neg hnone, Nat.mod_eq_of_lt (by omega)]
    exact iff_of_true rfl (.inl (hnew.mp hfirst))
  · rw [if_neg hfirst, or_iff_right fun h => hfirst (hnew.mpr h)]
    split
    · next h => exact iff_of_true rfl h
    · next h => exact iff_of_false (by omega) h

theorem mod_eq_self_iff {n : Nat} : n % 2 ^ 64 = n ↔ n < 2 ^ 64 :=
  ⟨fun h => h ▸ Nat.mod_lt n (by decide), Nat.mod_eq_of_lt⟩

/-- An access leaves the totals right exactly if it has the same source. -/
theorem Agrees.record_iff (h : Agrees accesses s) (a : Access) :
    Agrees (accesses ++ [a]) (s.recordResourceAccess a) ↔ SameSource accesses a := by
  rw [recordResourceAccess_eq h]
  constructor
  · rintro ⟨hres, hpeers⟩
    have hr := hres a.resourceId
    have hp := hpeers a.peerId
    rw [resourceTotals_concat_self, UMap.find_assign, if_pos rfl, Option.some.injEq,
      ResourceStats.mk.injEq] at hr
    rw [peerTotals_concat_self, UMap.find_assign, if_pos rfl, Option.some.injEq,
      PeerStats.mk.injEq] at hp
    obtain ⟨-, -, -, hcount, hbytes, -⟩ := hr
    obtain ⟨-, hpcount, hpbytes, hdistinct, -⟩ := hp
    have hcount := mod_eq_self_iff.mp hcount
    have hpcount := mod_eq_self_iff.mp hpcount
    exact ⟨(distinct_after_iff hcount hpcount).mp hdistinct, hcount, mod_eq_self_iff.mp hbytes,
      hpcount, mod_eq_self_iff.mp hpbytes⟩
  · rintro ⟨hsource, hcount, hbytes, hpcount, hpbytes⟩
    refine ⟨fun resourceId => ?_, fun peerId => ?_⟩
    · rw [UMap.find_assign]
      split
      · next hid =>
        subst hid
        rw [resourceTotals_concat_self, countAfter, mod_eq_self_iff.mpr hcount,
          mod_eq_self_iff.mpr hbytes]
      · next hid =>
        rw [h.resources]
        unfold resourceTotals
        rw [ofResource_concat_ne accesses hid]
    · rw [UMap.find_assign]
      split
      · next hid =>
        subst hid
        rw [peerTotals_concat_self, (distinct_after_iff hcount hpcount).mpr hsource,
          mod_eq_self_iff.mpr hpcount, mod_eq_self_iff.mpr hpbytes]
      · next hid =>
        rw [h.peers]
        unfold peerTotals
        rw [ofPeer_concat_ne accesses hid]

/-! ## The lists -/

theorem isSome_resourceTotals (accesses : List Access) (resourceId : Nat) :
    (resourceTotals accesses resourceId).isSome ↔ resourceId ∈ accesses.map Access.resourceId := by
  unfold resourceTotals
  rw [Option.isSome_map, List.getLast?_isSome, ofResource, ne_eq, List.filter_eq_nil_iff,
    List.mem_map]
  simp

/-- The table holds the resources that were accessed, with their totals. -/
theorem Agrees.allResources_perm (h : Agrees accesses s) :
    s.allResources.Perm (recordedResources accesses) := by
  have hkeys : s.resourceStats.keys.Perm (accesses.map Access.resourceId).dedup := by
    refine (List.perm_ext_iff_of_nodup s.resourceStats.keys_nodup (List.nodup_dedup _)).mpr
      fun resourceId => ?_
    rw [List.mem_dedup, ← isSome_resourceTotals, ← h.resources]
    exact UMap.mem_keys
  unfold allResources recordedResources
  rw [UMap.values_eq_filterMap, show s.resourceStats.find = resourceTotals accesses from
    funext h.resources]
  exact hkeys.filterMap _

theorem consistent_iff (std : StdSort ResourceStats) :
    Consistent std accesses s ↔ Agrees accesses s :=
  ⟨fun h => ⟨h.resources, h.peers⟩, fun h =>
    { resources := h.resources
      peers := h.peers
      mostAccessed := fun limit => std.isTop _ limit h.allResources_perm
      mostRecent := fun limit => std.isTop _ limit h.allResources_perm }⟩

/-! ## Runs -/

theorem sinceReset_accessed (history : List TrackerEvent) (a : Access) :
    sinceReset (history ++ [.accessed a]) = sinceReset history ++ [a] := by
  unfold sinceReset
  rw [List.foldl_append]
  rfl

theorem sinceReset_wasReset (history : List TrackerEvent) :
    sinceReset (history ++ [.wasReset]) = [] := by
  unfold sinceReset
  rw [List.foldl_append]
  rfl

theorem agrees_new : Agrees [] new := ⟨fun _ => rfl, fun _ => rfl⟩

theorem stepConsistent_iff (std : StdSort ResourceStats) {history : List TrackerEvent}
    (h : Agrees (sinceReset history) s) (c : TrackerCall) :
    StepConsistent std history s c ↔ CallFits history s c := by
  unfold StepConsistent
  rw [consistent_iff]
  cases c with
  | recordResourceAccess a =>
    dsimp only [step, CallFits]
    rw [sinceReset_accessed]
    exact h.record_iff a
  | recordQueryAccess queryTerm now =>
    dsimp only [step]
    rw [List.append_nil]
    exact iff_of_true ⟨h.resources, h.peers⟩ trivial
  | reset =>
    dsimp only [step]
    rw [sinceReset_wasReset]
    exact iff_of_true agrees_new trivial

/-- The answers are right after every call of a run exactly if every access has the same source as
one before or is of a new resource, and no counter wraps. -/
theorem along_consistent_iff_sameSource (std : StdSort ResourceStats) (calls : List TrackerCall) :
    machine.Along (StepConsistent std) [] new calls ↔ machine.Along CallFits [] new calls :=
  Machine.along_congr (M := machine) (I := fun history s => Agrees (sinceReset history) s)
    (fun _ _ c h hfits => (consistent_iff std).mp ((stepConsistent_iff std h c).mpr hfits))
    (fun _ _ c h => stepConsistent_iff std h c) agrees_new

def twoSources : List TrackerCall :=
  [.recordResourceAccess ⟨7, 1, "song", 10, 100⟩, .recordResourceAccess ⟨7, 2, "song", 10, 101⟩]

/-- The second peer's number of resources stays zero. -/
theorem twoSources_not_consistent :
    ¬ machine.Along (StepConsistent (StdSort.stable ResourceStats)) [] new twoSources := by
  rintro ⟨-, h, -⟩
  have hpeer := h.peers 2
  revert hpeer
  decide +kernel

end AccessTracker

end Alpine
