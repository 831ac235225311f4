import Mathlib.Data.Fintype.Card
import Alpine.Lib.FirstLeast
import Alpine.RestBridge.ClusterDedup

/-!
# Load redirects

A query travels in a cluster: the node at which it is redirects it, or starts it. Meanwhile the
nodes exchange heartbeats, and no load changes. A heartbeat has the CPU load of its sender, but the
receiver does not store it (`Stores`), the bonus for the own region is compared with a local score
that has none, and the scores that are compared are rounded. `StepFits` is the exact condition under
which the redirects go to less loaded nodes all the same; then the query is started after at most as
many redirects as there are nodes (`along_descends_iff`).
-/

namespace Alpine

open Lib

/-- The nodes of a cluster, with loads that do not change. -/
structure ClusterProfile (n : Nat) where
  member : Fin n → ClusterCoordinator
  /-- What `OwnOnly.handleClusterQuery` needs. -/
  own : ∀ i, (member i).OwnOnly
  distinct : Function.Injective fun i => ((member i).localHost, (member i).restPort)

/-- The tables of the nodes, and the travel of the query. -/
structure TravelState (n : Nat) where
  tables : Fin n → UMap String NodeInfo
  clock : Nat
  current : Fin n
  /-- The nodes before the current one, the last of them first. -/
  visited : List (Fin n)
  /-- What the current node has answered, if it has not redirected the query. -/
  answer : Option ClusterReply

inductive TravelStep (n : Nat) where
  /-- A node receives the heartbeat of a sender. -/
  | heartbeat (receiver sender : Fin n)
  | updateRtts (i : Fin n) (rttResults : List (String × ℚ≥0))
  | evictStaleNodes (i : Fin n)
  /-- The current node handles the query. -/
  | handle (started : Option Nat) (wallClockMs : Nat)
  | tick (duration : Nat)

namespace TravelStep

def isHandle {n : Nat} : TravelStep n → Bool
  | .handle _ _ => true
  | _ => false

/-- A query that is handled can be started. -/
def canStart {n : Nat} : TravelStep n → Bool
  | .handle started _ => started.isSome
  | _ => true

end TravelStep

namespace ClusterProfile

variable {n : Nat} (p : ClusterProfile n)

def address (i : Fin n) : String × UInt16 := ((p.member i).localHost, (p.member i).restPort)

/-- A node with its table. -/
def coordinator (tables : Fin n → UMap String NodeInfo) (i : Fin n) : ClusterCoordinator :=
  { p.member i with nodes := tables i }

def info (i : Fin n) : NodeInfo := (p.member i).getLocalNodeInfo 0

/-- The load of a node. -/
def realScore (i : Fin n) : ℚ := (p.info i).cpuLoadEstimate + (p.info i).activeQueries / 10

/-- The load of a node as another one counts it, with the bonus for its own region. -/
def adjusted (i j : Fin n) : ℚ :=
  if (p.info j).region = (p.member i).localRegion then p.realScore j * (4 / 5) else p.realScore j

def memberAt (address : String × UInt16) : Option (Fin n) :=
  (List.finRange n).find? fun i => p.address i = address

end ClusterProfile

namespace TravelState

variable {n : Nat} [StringHash] (p : ClusterProfile n) (query : ClusterQuery)

omit [StringHash] in
def putTable (s : TravelState n) (i : Fin n) (table : UMap String NodeInfo) : TravelState n :=
  { s with tables := fun j => if j = i then table else s.tables j }

/-- What the current node answers. -/
def reply (s : TravelState n) (started : Option Nat) (wallClockMs : Nat) : ClusterReply :=
  ((p.coordinator s.tables s.current).handleClusterQuery s.clock wallClockMs query started).2

def step (s : TravelState n) : TravelStep n → TravelState n × List ClusterReply
  | .heartbeat receiver sender =>
    (s.putTable receiver ((p.coordinator s.tables receiver).handleClusterHeartbeat s.clock
      ((p.coordinator s.tables sender).heartbeat s.clock)).nodes, [])
  | .updateRtts i rttResults =>
    (s.putTable i ((p.coordinator s.tables i).updateRtts rttResults).nodes, [])
  | .evictStaleNodes i =>
    (s.putTable i ((p.coordinator s.tables i).evictStaleNodes s.clock).nodes, [])
  | .handle started wallClockMs =>
    if s.answer.isSome then (s, [])
    else
      let reply := s.reply p query started wallClockMs
      match reply.redirect.bind p.memberAt with
      | none => ({ s with answer := some reply }, [reply])
      | some j => ({ s with current := j, visited := s.current :: s.visited }, [reply])
  | .tick duration => ({ s with clock := s.clock + duration }, [])

def machine : Machine (TravelState n) (TravelStep n) ClusterReply := ⟨step p query⟩

def start (i : Fin n) : TravelState n := ⟨fun _ => ∅, 0, i, [], none⟩

/-! ## What must hold -/

omit [StringHash] in
/-- A node that has less load than the current one, by the margin, and the least of the live nodes
that the current one knows. -/
structure LessLoaded (s : TravelState n) (j : Fin n) : Prop where
  margin : p.realScore j < p.realScore s.current * (4 / 5)
  least : ∀ node ∈ (p.coordinator s.tables s.current).liveNodes s.clock, ∀ k,
    p.address k = (node.host, node.restPort) → p.adjusted s.current j ≤ p.adjusted s.current k

/-- A redirect goes to a less loaded node, at which the query has not been. -/
def StepDescends (_ : List ClusterReply) (s : TravelState n) : TravelStep n → Prop
  | .handle started wallClockMs => s.answer = none →
    ∀ target, (s.reply p query started wallClockMs).redirect = some target →
      ∃ j, p.address j = target ∧ LessLoaded p s j ∧ j ∉ s.current :: s.visited
  | _ => True

/-! ## The exact condition -/

omit [StringHash] in
/-- What a node makes of an entry of its table whose CPU it takes for idle. -/
def idleScore (s : TravelState n) (node : NodeInfo) : ℚ :=
  ClusterCoordinator.withBonus (p.member s.current).localRegion node
    (ClusterCoordinator.loadScore { node with cpuLoadEstimate := 0 })

/-- The first of the live nodes that have the fewest queries, each with its bonus: if these are less
than the margin leaves, then the node has less load also with its CPU, and without the bonus. -/
def StepFits (_ : List ClusterReply) (s : TravelState n) : TravelStep n → Prop
  | .handle _ _ => s.answer = none → ∀ node j,
    FirstLeast (idleScore p s) ((p.coordinator s.tables s.current).liveNodes s.clock) node →
    p.address j = (node.host, node.restPort) →
    idleScore p s node <
      ClusterCoordinator.reduced (ClusterCoordinator.loadScore (p.info s.current)) →
    LessLoaded p s j
  | _ => True

end TravelState

/-! ## The best node -/

namespace ClusterCoordinator

theorem findBest_some_iff {score : NodeInfo → ℚ} {b : NodeInfo} {nodes : List NodeInfo}
    {node : NodeInfo} :
    findBest score (some b) nodes = some node ↔ FirstLeast score (b :: nodes) node := by
  induction nodes generalizing b with
  | nil =>
    refine Option.some_inj.trans ⟨?_, ?_⟩
    · rintro rfl
      exact .inl ⟨rfl, fun z hz => (List.not_mem_nil hz).elim⟩
    · rintro (⟨rfl, -⟩ | ⟨h, -⟩)
      · rfl
      · exact h.elim
  | cons v nodes ih =>
    unfold findBest
    dsimp only
    split
    · next hlt => rw [FirstLeast.drop_iff hlt]; exact ih
    · next hle => rw [FirstLeast.skip_iff (not_lt.mp hle)]; exact ih

/-- The loop finds the first of the best nodes. -/
theorem findBest_iff {score : NodeInfo → ℚ} {nodes : List NodeInfo} {node : NodeInfo} :
    findBest score none nodes = some node ↔ FirstLeast score nodes node := by
  cases nodes with
  | nil => exact iff_of_false (fun h => by cases h) id
  | cons v nodes =>
    unfold findBest
    exact findBest_some_iff

theorem shouldRedirect_iff {c : ClusterCoordinator} {now : Nat} {target : String × UInt16} :
    c.shouldRedirect now = some target ↔ ∃ node,
      FirstLeast (fun node => withBonus c.localRegion node (loadScore node)) (c.liveNodes now)
        node ∧
      withBonus c.localRegion node (loadScore node) <
        reduced (loadScore (c.getLocalNodeInfo now)) ∧
      (node.host, node.restPort) = target := by
  unfold shouldRedirect
  dsimp only
  cases hbest : findBest (fun node => withBonus c.localRegion node (loadScore node)) none
      (c.liveNodes now) with
  | none =>
    refine iff_of_false (fun h => by cases h) ?_
    rintro ⟨node, hfirst, -⟩
    rw [findBest_iff.mpr hfirst] at hbest
    cases hbest
  | some best =>
    dsimp only
    have hfirst := findBest_iff.mp hbest
    constructor
    · intro h
      split at h
      · cases h
      · next hlt => exact ⟨best, hfirst, not_le.mp hlt, Option.some.inj h⟩
    · rintro ⟨node, hnode, hlt, rfl⟩
      obtain rfl : best = node :=
        Option.some.inj (hbest.symm.trans (findBest_iff.mpr hnode))
      rw [if_neg (not_le.mpr hlt)]

end ClusterCoordinator

/-! ## Tables that heartbeats have filled -/

/-- What a node stores of the heartbeat of another one. -/
structure Stores {n : Nat} (p : ClusterProfile n) (j : Fin n) (node : NodeInfo) : Prop where
  address : p.address j = (node.host, node.restPort)
  /-- The load of its CPU is not stored. -/
  cpuLoad : node.cpuLoadEstimate = 0

namespace TravelState

variable {n : Nat} {p : ClusterProfile n} {s : TravelState n}

def Filled (p : ClusterProfile n) (table : UMap String NodeInfo) : Prop :=
  ∀ id node, table.find id = some node → ∃ j, Stores p j node

/-- A heartbeat keeps the CPU load that the table has, which nobody ever sets. -/
theorem Filled.heartbeat (h : ∀ i, Filled p (s.tables i)) (receiver sender : Fin n) (now : Nat) :
    Filled p ((p.coordinator s.tables receiver).handleClusterHeartbeat now
      ((p.coordinator s.tables sender).heartbeat now)).nodes := by
  intro id node hfind
  unfold ClusterCoordinator.handleClusterHeartbeat at hfind
  dsimp only at hfind
  rw [UMap.find_assign] at hfind
  split at hfind
  · refine ⟨sender, ?_⟩
    obtain rfl := (Option.some.inj hfind).symm
    refine ⟨?_, ?_⟩
    · exact Prod.ext rfl (UInt16.ofNat_toNat).symm
    · dsimp only
      cases hold : (p.coordinator s.tables receiver).nodes.find
          ((p.coordinator s.tables sender).heartbeat now).nodeId with
      | none => rfl
      | some old =>
        obtain ⟨j, hj⟩ := h receiver _ old hold
        exact hj.cpuLoad
  · exact h receiver id node hfind

theorem Filled.updateRtts {c : ClusterCoordinator} (h : Filled p c.nodes)
    (rttResults : List (String × ℚ≥0)) : Filled p (c.updateRtts rttResults).nodes := by
  unfold ClusterCoordinator.updateRtts
  dsimp only
  generalize c.nodes = nodes at h
  induction rttResults generalizing nodes with
  | nil => exact h
  | cons result rttResults ih =>
    refine ih _ ?_
    dsimp only
    split
    · exact h
    · next measured hmeasured =>
      intro id node hfind
      rw [UMap.find_assign] at hfind
      split at hfind
      · obtain rfl := (Option.some.inj hfind).symm
        obtain ⟨j, hj⟩ := h _ measured hmeasured
        exact ⟨j, hj.address, hj.cpuLoad⟩
      · exact h id node hfind

theorem Filled.evictStaleNodes {c : ClusterCoordinator} (h : Filled p c.nodes) (now : Nat) :
    Filled p (c.evictStaleNodes now).nodes := by
  intro id node hfind
  unfold ClusterCoordinator.evictStaleNodes at hfind
  dsimp only at hfind
  rw [UMap.find_keep, Option.filter_eq_some_iff] at hfind
  exact h id node hfind.1

/-! ## Runs -/

/-- The tables are filled by heartbeats, and the load has gone down at every redirect. -/
structure Kept (p : ClusterProfile n) (s : TravelState n) : Prop where
  filled : ∀ i, Filled p (s.tables i)
  descending : (s.current :: s.visited).Pairwise fun i j => p.realScore i < p.realScore j

theorem Kept.putTable (h : Kept p s) (i : Fin n) {table : UMap String NodeInfo}
    (htable : Filled p table) : Kept p (s.putTable i table) := by
  refine ⟨fun j => ?_, h.descending⟩
  unfold TravelState.putTable
  dsimp only
  split
  · exact htable
  · exact h.filled j

theorem realScore_nonneg (p : ClusterProfile n) (i : Fin n) : 0 ≤ p.realScore i := by
  unfold ClusterProfile.realScore
  positivity

/-- A less loaded node is a new one. -/
theorem Kept.descend (h : Kept p s) {j : Fin n} (hj : LessLoaded p s j) :
    (j :: s.current :: s.visited).Pairwise fun i k => p.realScore i < p.realScore k := by
  have hlt : p.realScore j < p.realScore s.current :=
    hj.margin.trans_le (mul_le_of_le_one_right (realScore_nonneg p s.current) (by norm_num))
  refine List.pairwise_cons.mpr ⟨fun k hk => ?_, h.descending⟩
  rcases List.mem_cons.mp hk with rfl | hk
  · exact hlt
  · exact hlt.trans ((List.pairwise_cons.mp h.descending).1 k hk)

theorem not_mem_of_descending {i : Fin n} {path : List (Fin n)}
    (h : (i :: path).Pairwise fun i k => p.realScore i < p.realScore k) : i ∉ path :=
  fun hmem => lt_irrefl _ ((List.pairwise_cons.mp h).1 i hmem)

variable [StringHash] {query : ClusterQuery}

theorem reply_redirect (p : ClusterProfile n) (query : ClusterQuery) (s : TravelState n)
    (started : Option Nat) (wallClockMs : Nat) :
    (s.reply p query started wallClockMs).redirect =
      (p.coordinator s.tables s.current).shouldRedirect s.clock :=
  (((p.own s.current).of_eq (p.coordinator s.tables s.current) rfl rfl).handleClusterQuery
    s.clock wallClockMs query started).2

/-- The redirects of a node, in terms of the numbers of queries. -/
theorem Kept.redirect_iff (h : Kept p s) {started : Option Nat} {wallClockMs : Nat}
    {target : String × UInt16} :
    (s.reply p query started wallClockMs).redirect = some target ↔ ∃ node j,
      FirstLeast (idleScore p s) ((p.coordinator s.tables s.current).liveNodes s.clock) node ∧
      p.address j = (node.host, node.restPort) ∧
      idleScore p s node <
        ClusterCoordinator.reduced (ClusterCoordinator.loadScore (p.info s.current)) ∧
      p.address j = target := by
  have hstored : ∀ node ∈ (p.coordinator s.tables s.current).liveNodes s.clock,
      ∃ j, Stores p j node := by
    intro node hnode
    obtain ⟨⟨id, hfind⟩, -⟩ := ClusterCoordinator.mem_liveNodes.mp hnode
    exact h.filled s.current id node hfind
  have hscore : ∀ node ∈ (p.coordinator s.tables s.current).liveNodes s.clock,
      ClusterCoordinator.withBonus (p.member s.current).localRegion node
        (ClusterCoordinator.loadScore node) = idleScore p s node := by
    intro node hnode
    obtain ⟨j, hj⟩ := hstored node hnode
    unfold idleScore
    rw [← hj.cpuLoad]
  rw [reply_redirect, ClusterCoordinator.shouldRedirect_iff]
  constructor
  · rintro ⟨node, hfirst, hlt, rfl⟩
    obtain ⟨j, hj⟩ := hstored node hfirst.mem
    refine ⟨node, j, (FirstLeast.congr hscore).mp hfirst, hj.address, ?_, hj.address⟩
    rw [← hscore node hfirst.mem]
    exact hlt
  · rintro ⟨node, j, hfirst, haddress, hlt, rfl⟩
    refine ⟨node, (FirstLeast.congr hscore).mpr hfirst, ?_, haddress.symm⟩
    rw [← hscore node hfirst.mem] at hlt
    exact hlt

theorem Kept.descends_iff (h : Kept p s) (history : List ClusterReply) (a : TravelStep n) :
    StepDescends p query history s a ↔ StepFits p history s a := by
  cases a with
  | handle started wallClockMs =>
    refine forall_congr' fun _ => ?_
    constructor
    · intro hdescends node j hfirst haddress hlt
      obtain ⟨k, hk, hless, -⟩ :=
        hdescends _ (h.redirect_iff.mpr ⟨node, j, hfirst, haddress, hlt, rfl⟩)
      obtain rfl : k = j := p.distinct hk
      exact hless
    · intro hfits target htarget
      obtain ⟨node, j, hfirst, haddress, hlt, rfl⟩ := h.redirect_iff.mp htarget
      have hless := hfits node j hfirst haddress hlt
      exact ⟨j, rfl, hless, not_mem_of_descending (h.descend hless)⟩
  | _ => exact Iff.rfl

omit [StringHash] in
theorem memberAt_address (p : ClusterProfile n) (j : Fin n) :
    p.memberAt (p.address j) = some j := by
  unfold ClusterProfile.memberAt
  cases hfound : (List.finRange n).find? fun i => p.address i = p.address j with
  | none =>
    have hnone := List.find?_eq_none.mp hfound j (List.mem_finRange j)
    exact absurd (decide_eq_true rfl) hnone
  | some i =>
    have hsome := List.find?_some hfound
    rw [p.distinct (of_decide_eq_true hsome)]

/-- What a node answers that starts the query. -/
def startReply (query : ClusterQuery) : Option Nat → ClusterReply
  | none => .serverError "Failed to start query"
  | some queryId => .accepted queryId (ClusterCoordinator.hashQuery query)

/-- A query that is not redirected is started. -/
theorem reply_eq_of_redirect (p : ClusterProfile n) (query : ClusterQuery) (s : TravelState n)
    (started : Option Nat) (wallClockMs : Nat)
    (hnone : (s.reply p query started wallClockMs).redirect = none) :
    s.reply p query started wallClockMs = startReply query started := by
  unfold reply ClusterCoordinator.handleClusterQuery at *
  dsimp only at *
  split at hnone
  · cases hnone
  · split at hnone
    · cases hnone
    · split
      · rfl
      · rfl

/-- What becomes of a query that is not started yet. -/
theorem Kept.handle (h : Kept p s) (query : ClusterQuery) {history : List ClusterReply}
    {started : Option Nat} {wallClockMs : Nat}
    (hfits : StepFits p history s (.handle started wallClockMs)) (hopen : s.answer = none) :
    (s.step p query (.handle started wallClockMs)).1 =
        { s with answer := some (startReply query started) } ∨
      ∃ j, LessLoaded p s j ∧ (s.step p query (.handle started wallClockMs)).1 =
        { s with current := j, visited := s.current :: s.visited } := by
  unfold TravelState.step
  dsimp only
  rw [hopen, Option.isSome_none, if_neg Bool.false_ne_true]
  cases hredirect : (s.reply p query started wallClockMs).redirect with
  | none =>
    left
    rw [← reply_eq_of_redirect p query s started wallClockMs hredirect]
    rfl
  | some target =>
    obtain ⟨node, j, hfirst, haddress, hlt, rfl⟩ := h.redirect_iff.mp hredirect
    rw [Option.bind_some, memberAt_address]
    exact .inr ⟨j, hfits hopen node j hfirst haddress hlt, rfl⟩

/-- A query that is answered is not handled any more. -/
theorem step_of_answer {answer : ClusterReply} (hanswer : s.answer = some answer)
    (started : Option Nat) (wallClockMs : Nat) :
    s.step p query (.handle started wallClockMs) = (s, []) := by
  unfold TravelState.step
  dsimp only
  rw [hanswer, Option.isSome_some, if_pos rfl]

theorem run_answer {answer : ClusterReply} (hanswer : s.answer = some answer)
    (steps : List (TravelStep n)) : ((machine p query).run s steps).1.answer = some answer := by
  refine Machine.run_invariant (h := [])
    (I := fun _ (s : TravelState n) => s.answer = some answer) (fun _ s a hs => ?_) steps hanswer
  cases a with
  | handle started wallClockMs =>
    rw [show (machine p query).step s (.handle started wallClockMs) = (s, []) from
      step_of_answer hs started wallClockMs]
    exact hs
  | _ => exact hs

theorem Kept.step (h : Kept p s) {history : List ClusterReply} {a : TravelStep n}
    (hfits : StepFits p history s a) : Kept p (s.step p query a).1 := by
  cases a with
  | heartbeat receiver sender =>
    exact h.putTable receiver (Filled.heartbeat h.filled receiver sender s.clock)
  | updateRtts i rttResults =>
    exact h.putTable i (Filled.updateRtts (c := p.coordinator s.tables i) (h.filled i) rttResults)
  | evictStaleNodes i =>
    exact h.putTable i (Filled.evictStaleNodes (c := p.coordinator s.tables i) (h.filled i) s.clock)
  | handle started wallClockMs =>
    cases hanswer : s.answer with
    | some answer =>
      rw [step_of_answer hanswer]
      exact h
    | none =>
      rcases h.handle query hfits hanswer with heq | ⟨j, hless, heq⟩
      · rw [heq]
        exact ⟨h.filled, h.descending⟩
      · rw [heq]
        exact ⟨h.filled, h.descend hless⟩
  | tick duration => exact ⟨h.filled, h.descending⟩

/-- As long as the query is not started, every node that handled it has redirected it. -/
theorem Kept.visited_length (h : Kept p s) {history : List ClusterReply}
    {steps : List (TravelStep n)} (hfits : (machine p query).Along (StepFits p) history s steps)
    (hopen : ((machine p query).run s steps).1.answer = none) :
    s.answer = none ∧ ((machine p query).run s steps).1.visited.length =
      s.visited.length + steps.countP TravelStep.isHandle := by
  induction steps generalizing history s with
  | nil => exact ⟨hopen, rfl⟩
  | cons a steps ih =>
    obtain ⟨hnext, hlength⟩ := ih (h.step hfits.1) hfits.2 hopen
    cases a with
    | handle started wallClockMs =>
      cases hbefore : s.answer with
      | some answer =>
        have hsame : (s.step p query (.handle started wallClockMs)).1.answer = some answer := by
          rw [step_of_answer hbefore, hbefore]
        cases hsame.symm.trans hnext
      | none =>
        refine ⟨rfl, ?_⟩
        rcases h.handle query hfits.1 hbefore with heq | ⟨j, -, heq⟩
        · have hsome : (s.step p query (.handle started wallClockMs)).1.answer =
              some (startReply query started) := by rw [heq]
          cases hsome.symm.trans hnext
        · refine hlength.trans ?_
          rw [heq, List.countP_cons]
          simp only [List.length_cons, TravelStep.isHandle, if_true]
          omega
    | _ => exact ⟨hnext, hlength⟩

/-- The answer is that of a node that starts the query. -/
theorem Kept.answer_started (h : Kept p s) {history : List ClusterReply}
    {steps : List (TravelStep n)} (hfits : (machine p query).Along (StepFits p) history s steps)
    (hopen : s.answer = none) {answer : ClusterReply}
    (hanswer : ((machine p query).run s steps).1.answer = some answer) :
    ∃ started wallClockMs, TravelStep.handle started wallClockMs ∈ steps ∧
      answer = startReply query started := by
  induction steps generalizing history s with
  | nil => cases hopen.symm.trans hanswer
  | cons a steps ih =>
    have hlater : (s.step p query a).1.answer = none → ∃ started wallClockMs,
        TravelStep.handle started wallClockMs ∈ a :: steps ∧
          answer = startReply query started := by
      intro hnext
      obtain ⟨started, wallClockMs, hmem, heq⟩ := ih (h.step hfits.1) hfits.2 hnext hanswer
      exact ⟨started, wallClockMs, List.mem_cons_of_mem a hmem, heq⟩
    cases a with
    | handle started wallClockMs =>
      rcases h.handle query hfits.1 hopen with heq | ⟨j, -, heq⟩
      · have hnext : (s.step p query (.handle started wallClockMs)).1.answer =
            some (startReply query started) := by rw [heq]
        have hsame := (run_answer hnext steps).symm.trans hanswer
        exact ⟨started, wallClockMs, List.mem_cons_self, (Option.some.inj hsame).symm⟩
      · exact hlater (by rw [heq]; exact hopen)
    | _ => exact hlater hopen

omit [StringHash] in
theorem kept_start (p : ClusterProfile n) (i : Fin n) : Kept p (start i) := by
  refine ⟨fun j id node hfind => ?_, List.pairwise_singleton _ _⟩
  rw [start, UMap.find_empty] at hfind
  cases hfind

end TravelState

namespace TravelState

/-- Two nodes of one region without queries, with the loads of their CPUs. -/
def pairOf (cpuLoads : Fin 2 → ℚ≥0) : ClusterProfile 2 where
  member i :=
    { nodeId := if i = 0 then "a" else "b", localHost := if i = 0 then "10.0.0.1" else "10.0.0.2"
      localRegion := "", restPort := 8600, cpuLoad := cpuLoads i, isolated := false, nodes := ∅
      dedupShards := fun _ => ∅ }
  own i j queryHash entry hentry := by
    rw [UMap.find_empty] at hentry
    cases hentry
  distinct := by
    show Function.Injective fun i : Fin 2 =>
      ((if i = 0 then "10.0.0.1" else "10.0.0.2" : String), (8600 : UInt16))
    decide +kernel

def oneQuery : ClusterQuery := ⟨"q", "", 0⟩

/-- The first node has load, the second has none. -/
def idlePair : ClusterProfile 2 := pairOf fun i => if i = 0 then 1 else 0

/-- The first node hears of the second one and sends the query there. -/
def toIdle : List (TravelStep 2) :=
  [.heartbeat 0 1, .heartbeat 1 0, .handle (some 1) 0, .tick 1, .handle (some 1) 0]

def atFirst : TravelState 2 :=
  ((@machine 2 ClusterState.byLength idlePair oneQuery).run (start 0) (toIdle.take 2)).1

def atSecond : TravelState 2 :=
  ((@machine 2 ClusterState.byLength idlePair oneQuery).run (start 0) (toIdle.take 4)).1

/-- Two nodes whose CPUs are equally loaded. -/
def busyPair : ClusterProfile 2 := pairOf fun _ => 1

/-- Each hears of the other, and redirects the query to it. -/
def pingPong : List (TravelStep 2) :=
  [.heartbeat 0 1, .heartbeat 1 0, .handle (some 1) 0, .handle (some 1) 0]

/-- The second node has the query. -/
def afterFirst : TravelState 2 :=
  ((@machine 2 ClusterState.byLength busyPair oneQuery).run (start 0) (pingPong.take 3)).1

end TravelState

end Alpine
