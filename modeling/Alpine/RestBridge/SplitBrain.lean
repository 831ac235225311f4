import Alpine.Lib.Run
import Alpine.RestBridge.ClusterCoordinator

/-!
# Split-brain detection

The heartbeat thread evicts the nodes that are silent for the timeout, and then counts in the table
that is left those that are silent for twice the timeout. If the timeout of the eviction, with the
time that has gone by since, fits in the window of the check, then nobody is left to be counted
(`unreachable_of_timely`), and the node is not isolated whoever is silent. Only if the eviction has
brought the timeout down to less than one half, or if the check is late, can the node be isolated,
and then the majority is that of the nodes that are left. `StepFits` says when this is right
(`along_isolates`).
-/

namespace Alpine

open Lib

/-- An eviction: the time that it took for now, and its timeout. -/
structure Eviction where
  time : Nat
  timeoutSec : Nat

/-- Where the heartbeat thread is in its loop. It looks at the clock before it takes the lock. -/
inductive HeartbeatPhase where
  | idle
  | evicting (now : Nat)
  | evicted (eviction : Eviction)
  | checking (eviction : Eviction) (now : Nat)

namespace HeartbeatPhase

/-- The eviction of the round. -/
def eviction : HeartbeatPhase → Option Eviction
  | .evicted eviction => some eviction
  | .checking eviction _ => some eviction
  | _ => none

end HeartbeatPhase

structure SplitBrainState where
  coordinator : ClusterCoordinator
  clock : Nat
  phase : HeartbeatPhase

inductive SplitBrainStep where
  | heartbeat (h : Heartbeat)
  | beacon (peerNodeId peerHost : String) (peerRestPort : UInt16) (region : Option String)
      (capabilities : Option (List String))
  | updateRtts (rttResults : List (String × ℚ≥0))
  /-- What the heartbeat thread does next. -/
  | thread
  | tick (duration : Nat)

/-- A node was heard at a time. -/
structure HeardNode where
  peerId : String
  time : Nat

namespace SplitBrainState

def start (nodeId localHost localRegion : String) (restPort : UInt16) : SplitBrainState where
  coordinator :=
    { nodeId, localHost, localRegion, restPort, cpuLoad := 0, isolated := false, nodes := ∅
      dedupShards := fun _ => ∅ }
  clock := 0
  phase := .idle

/-- One pass of the loop of `threadMain` is four steps. -/
def step (s : SplitBrainState) : SplitBrainStep → SplitBrainState × List HeardNode
  | .heartbeat h =>
    ({ s with coordinator := s.coordinator.handleClusterHeartbeat s.clock h },
      [⟨h.nodeId, s.clock⟩])
  | .beacon peerNodeId peerHost peerRestPort region capabilities =>
    ({ s with
      coordinator :=
        s.coordinator.handleBeacon s.clock peerNodeId peerHost peerRestPort region capabilities },
      [⟨peerNodeId, s.clock⟩])
  | .updateRtts rttResults => ({ s with coordinator := s.coordinator.updateRtts rttResults }, [])
  | .thread =>
    match s.phase with
    | .idle => ({ s with phase := .evicting s.clock }, [])
    | .evicting now =>
      let eviction := ⟨now, ClusterCoordinator.computeAdaptiveTimeoutSec s.coordinator.nodes⟩
      ({ s with coordinator := s.coordinator.evictStaleNodes now, phase := .evicted eviction }, [])
    | .evicted eviction => ({ s with phase := .checking eviction s.clock }, [])
    | .checking _ now =>
      ({ s with coordinator := s.coordinator.checkSplitBrain now, phase := .idle }, [])
  | .tick duration => ({ s with clock := s.clock + duration }, [])

def machine : Machine SplitBrainState SplitBrainStep HeardNode := ⟨step⟩

/-! ## What must hold -/

/-- The nodes that were heard, with the time when each was heard last. -/
def knownNodes (history : List HeardNode) : UMap String Nat :=
  history.foldl (fun known e => known.assign e.peerId e.time) ∅

def splitBrainWindowSec (s : SplitBrainState) : Nat :=
  ClusterCoordinator.computeAdaptiveTimeoutSec s.coordinator.nodes *
    ClusterCoordinator.SPLIT_BRAIN_MULTIPLIER

/-- Silent for longer than the window. -/
def isSilent (s : SplitBrainState) (now time : Nat) : Bool :=
  decide (ClusterCoordinator.elapsedSec now time > s.splitBrainWindowSec)

/-- How many of the known nodes are silent. -/
def silent (history : List HeardNode) (s : SplitBrainState) (now : Nat) : Nat :=
  (knownNodes history).countBy fun _ time => s.isSilent now time

/-- The node is isolated after a check exactly if more than one half of the nodes that were known is
silent; nothing else changes it. -/
def StepIsolates (history : List HeardNode) (s : SplitBrainState) (a : SplitBrainStep) : Prop :=
  (s.step a).1.coordinator.isolated =
    match a, s.phase with
    | .thread, .checking _ now =>
      decide (2 * silent history s now > (knownNodes history).keys.length)
    | _, _ => s.coordinator.isolated

/-! ## The condition -/

/-- What the eviction has left, with the time that has gone by since, fits in the window. -/
def Timely (s : SplitBrainState) (eviction : Eviction) (now : Nat) : Prop :=
  eviction.timeoutSec * 1000000000 + (now - eviction.time) ≤ s.splitBrainWindowSec * 1000000000

instance decidableTimely (s : SplitBrainState) (eviction : Eviction) (now : Nat) :
    Decidable (s.Timely eviction now) :=
  inferInstanceAs (Decidable (_ ≤ _))

/-- How many of the known nodes are not in the table any more. -/
def missing (history : List HeardNode) (s : SplitBrainState) : Nat :=
  (knownNodes history).countBy fun peerId _ => (s.coordinator.nodes.find peerId).isNone

/-- At a timely check no more than one half of the known nodes is silent, at another one the silent
ones are the majority, or the minority, by more than the missing nodes. -/
def StepFits (history : List HeardNode) (s : SplitBrainState) (a : SplitBrainStep) : Prop :=
  match a, s.phase with
  | .thread, .checking eviction now =>
    if s.Timely eviction now then 2 * silent history s now ≤ (knownNodes history).keys.length
    else (knownNodes history).keys.length + missing history s < 2 * silent history s now ∨
      2 * silent history s now + missing history s ≤ (knownNodes history).keys.length
  | _, _ => True

/-- Every check is timely. -/
def StepTimely (_ : List HeardNode) (s : SplitBrainState) (a : SplitBrainStep) : Prop :=
  match a, s.phase with
  | .thread, .checking eviction now => s.Timely eviction now
  | _, _ => True

instance decidableStepFits (history : List HeardNode) (s : SplitBrainState) (a : SplitBrainStep) :
    Decidable (StepFits history s a) := by
  unfold StepFits
  split <;> infer_instance

instance decidableStepTimely (history : List HeardNode) (s : SplitBrainState)
    (a : SplitBrainStep) : Decidable (StepTimely history s a) := by
  unfold StepTimely
  split <;> infer_instance

end SplitBrainState

namespace ClusterCoordinator

variable {c : ClusterCoordinator}

/-- Measured times leave the heartbeats alone. -/
theorem find_updateRtts {rttResults : List (String × ℚ≥0)} {id : String} {node : NodeInfo}
    (h : (c.updateRtts rttResults).nodes.find id = some node) :
    ∃ node', c.nodes.find id = some node' ∧ node.lastHeartbeat = node'.lastHeartbeat := by
  unfold updateRtts at h
  dsimp only at h
  generalize c.nodes = nodes at h
  induction rttResults generalizing nodes with
  | nil => exact ⟨node, h, rfl⟩
  | cons result rttResults ih =>
    rw [List.foldl_cons] at h
    obtain ⟨node', hfind, heq⟩ := ih _ h
    split at hfind
    · exact ⟨node', hfind, heq⟩
    · next measured hmeasured =>
      rw [UMap.find_assign] at hfind
      split at hfind
      · next hid =>
        cases hfind
        exact ⟨measured, hid ▸ hmeasured, heq⟩
      · exact ⟨node', hfind, heq⟩

end ClusterCoordinator

/-! ## Runs -/

namespace SplitBrainState

variable {history : List HeardNode} {s : SplitBrainState}

/-- Every node of the table was heard when its entry says, and those that an eviction has left were
heard within its timeout. -/
structure Kept (history : List HeardNode) (s : SplitBrainState) : Prop where
  heard : ∀ id node, s.coordinator.nodes.find id = some node →
    (knownNodes history).find id = some node.lastHeartbeat
  looked : ∀ now, s.phase = .evicting now → now ≤ s.clock
  before : ∀ eviction, s.phase.eviction = some eviction → eviction.time ≤ s.clock
  fresh : ∀ eviction, s.phase.eviction = some eviction →
    ∀ id node, s.coordinator.nodes.find id = some node →
      ClusterCoordinator.elapsedSec eviction.time node.lastHeartbeat ≤ eviction.timeoutSec

theorem knownNodes_append (history : List HeardNode) (e : HeardNode) :
    knownNodes (history ++ [e]) = (knownNodes history).assign e.peerId e.time := by
  unfold knownNodes
  rw [List.foldl_append]
  rfl

/-- What was heard after a time has not been silent at that time. -/
theorem elapsedSec_eq_zero {now since : Nat} (h : now ≤ since) :
    ClusterCoordinator.elapsedSec now since = 0 := by
  unfold ClusterCoordinator.elapsedSec
  rw [Nat.sub_eq_zero_of_le h]

/-- A node that is heard comes into the table with the time. -/
theorem Kept.hear (h : Kept history s) {c : ClusterCoordinator} {peerId : String} {heard : NodeInfo}
    (hnodes : c.nodes = s.coordinator.nodes.assign peerId heard)
    (htime : heard.lastHeartbeat = s.clock) :
    Kept (history ++ [⟨peerId, s.clock⟩]) { s with coordinator := c } := by
  refine ⟨fun id node hfind => ?_, h.looked, h.before, fun eviction heviction id node hfind => ?_⟩
  · rw [knownNodes_append, UMap.find_assign]
    rw [hnodes, UMap.find_assign] at hfind
    split at hfind
    · next hid =>
      cases hfind
      rw [if_pos hid, htime]
    · next hid =>
      rw [if_neg hid]
      exact h.heard id node hfind
  · rw [hnodes, UMap.find_assign] at hfind
    split at hfind
    · cases hfind
      rw [htime, elapsedSec_eq_zero (h.before eviction heviction)]
      exact Nat.zero_le _
    · exact h.fresh eviction heviction id node hfind

theorem Kept.updateRtts (h : Kept history s) (rttResults : List (String × ℚ≥0)) :
    Kept history { s with coordinator := s.coordinator.updateRtts rttResults } := by
  refine ⟨fun id node hfind => ?_, h.looked, h.before, fun eviction heviction id node hfind => ?_⟩
  · obtain ⟨node', hfind', heq⟩ := ClusterCoordinator.find_updateRtts hfind
    rw [heq]
    exact h.heard id node' hfind'
  · obtain ⟨node', hfind', heq⟩ := ClusterCoordinator.find_updateRtts hfind
    rw [heq]
    exact h.fresh eviction heviction id node' hfind'

/-- The eviction leaves what its timeout allows. -/
theorem Kept.evictStaleNodes (h : Kept history s) {now : Nat} (hphase : s.phase = .evicting now) :
    Kept history { s with
      coordinator := s.coordinator.evictStaleNodes now
      phase := .evicted
        ⟨now, ClusterCoordinator.computeAdaptiveTimeoutSec s.coordinator.nodes⟩ } := by
  have hkept : ∀ id node, (s.coordinator.evictStaleNodes now).nodes.find id = some node →
      s.coordinator.nodes.find id = some node ∧ ClusterCoordinator.isLive
        (ClusterCoordinator.computeAdaptiveTimeoutSec s.coordinator.nodes) now node = true := by
    intro id node hfind
    unfold ClusterCoordinator.evictStaleNodes at hfind
    dsimp only at hfind
    rwa [UMap.find_keep, Option.filter_eq_some_iff] at hfind
  refine ⟨fun id node hfind => h.heard id node (hkept id node hfind).1, fun _ hnow => ?_,
    fun eviction heviction => ?_, fun eviction heviction id node hfind => ?_⟩
  · cases hnow
  · cases heviction
    exact h.looked now hphase
  · cases heviction
    exact of_decide_eq_true (hkept id node hfind).2

theorem Kept.checkSplitBrain (h : Kept history s) (now : Nat) :
    Kept history { s with coordinator := s.coordinator.checkSplitBrain now, phase := .idle } := by
  have hnodes : (s.coordinator.checkSplitBrain now).nodes = s.coordinator.nodes := by
    unfold ClusterCoordinator.checkSplitBrain
    split <;> rfl
  refine ⟨fun id node hfind => ?_, fun _ hnow => ?_, fun _ heviction => ?_,
    fun _ heviction => ?_⟩
  · rw [hnodes] at hfind
    exact h.heard id node hfind
  · cases hnow
  · cases heviction
  · cases heviction

theorem Kept.step (h : Kept history s) (a : SplitBrainStep) :
    Kept (history ++ (s.step a).2) (s.step a).1 := by
  cases a with
  | heartbeat m => exact h.hear rfl rfl
  | beacon peerNodeId peerHost peerRestPort region capabilities => exact h.hear rfl rfl
  | updateRtts rttResults =>
    have hnext := h.updateRtts rttResults
    rwa [← List.append_nil history] at hnext
  | thread =>
    unfold SplitBrainState.step
    dsimp only
    split
    · rw [List.append_nil]
      refine ⟨h.heard, fun now hnow => ?_, fun _ heviction => ?_, fun _ heviction => ?_⟩
      · cases hnow
        exact le_rfl
      · cases heviction
      · cases heviction
    · next now hphase =>
      rw [List.append_nil]
      exact h.evictStaleNodes hphase
    · next eviction hphase =>
      rw [List.append_nil]
      have hsame : s.phase.eviction = some eviction := by rw [hphase]; rfl
      refine ⟨h.heard, fun _ hnow => ?_, fun e he => ?_, fun e he => ?_⟩
      · cases hnow
      · cases he
        exact h.before eviction hsame
      · cases he
        exact h.fresh eviction hsame
    · next eviction now hphase =>
      rw [List.append_nil]
      exact h.checkSplitBrain now
  | tick duration =>
    have hnext : Kept history { s with clock := s.clock + duration } :=
      ⟨h.heard, fun now hnow => (h.looked now hnow).trans (Nat.le_add_right _ _),
        fun eviction heviction => (h.before eviction heviction).trans (Nat.le_add_right _ _),
        h.fresh⟩
    rwa [← List.append_nil history] at hnext

/-! ## Checks -/

/-- Known nodes are in the table or missing. -/
theorem Kept.length_known (h : Kept history s) :
    (knownNodes history).keys.length = s.coordinator.nodes.keys.length + missing history s := by
  have hall := UMap.countBy_eq_add (f := NodeInfo.lastHeartbeat) h.heard fun _ _ => true
  rw [← UMap.length_keys_eq_countBy, ← UMap.length_keys_eq_countBy] at hall
  rw [hall]
  unfold missing
  simp only [Bool.and_true]

/-- Of the silent nodes, those in the table are counted. -/
theorem Kept.silent_bounds (h : Kept history s) (now : Nat) :
    s.coordinator.unreachable now ≤ silent history s now ∧
      silent history s now ≤ s.coordinator.unreachable now + missing history s := by
  have hsilent := UMap.countBy_eq_add (f := NodeInfo.lastHeartbeat) h.heard fun _ => s.isSilent now
  have hcount : (s.coordinator.nodes.countBy fun _ node => s.isSilent now node.lastHeartbeat) =
      s.coordinator.unreachable now := rfl
  have hle : ((knownNodes history).countBy fun peerId time =>
      (s.coordinator.nodes.find peerId).isNone && s.isSilent now time) ≤ missing history s :=
    List.countP_mono_left fun e _ hboth => (Bool.and_eq_true_iff.mp hboth).1
  unfold silent
  rw [hsilent, hcount]
  omega

/-- What a check decides. -/
theorem isolated_checkSplitBrain (c : ClusterCoordinator) (now : Nat) :
    (c.checkSplitBrain now).isolated = decide (c.nodes.keys.length < 2 * c.unreachable now) := by
  unfold ClusterCoordinator.checkSplitBrain
  split
  · next hempty =>
    have hle : c.unreachable now ≤ c.nodes.keys.length := UMap.countBy_le _ _
    rw [hempty] at hle ⊢
    have hzero : c.unreachable now = 0 := Nat.le_zero.mp hle
    rw [hzero]
    rfl
  · rfl

/-- At a timely check nobody is left who has been silent for the window. -/
theorem Kept.unreachable_of_timely (h : Kept history s) {eviction : Eviction} {now : Nat}
    (heviction : s.phase.eviction = some eviction) (htimely : s.Timely eviction now) :
    s.coordinator.unreachable now = 0 := by
  refine List.countP_eq_zero.mpr fun e he hsilent => ?_
  have hfresh := h.fresh eviction heviction e.1 e.2 (UMap.mem_entries.mp he)
  have hwindow : s.splitBrainWindowSec <
      ClusterCoordinator.elapsedSec now e.2.lastHeartbeat := of_decide_eq_true hsilent
  unfold ClusterCoordinator.elapsedSec at hfresh hwindow
  unfold Timely at htimely
  omega

/-- A round is timely when its check comes within seventy seconds less the timeout. -/
theorem timely_of_le {eviction : Eviction} {now : Nat}
    (h : eviction.timeoutSec * 1000000000 + (now - eviction.time) ≤ 70 * 1000000000) :
    s.Timely eviction now := by
  have hmin : ClusterCoordinator.NODE_TIMEOUT_MIN_SEC ≤
      ClusterCoordinator.computeAdaptiveTimeoutSec s.coordinator.nodes := by
    unfold ClusterCoordinator.computeAdaptiveTimeoutSec
    split
    · exact le_rfl
    · exact le_min (le_max_left _ _) (by decide)
  refine h.trans (Nat.mul_le_mul_right _ ?_)
  exact Nat.mul_le_mul_right ClusterCoordinator.SPLIT_BRAIN_MULTIPLIER hmin

/-- A timely check never isolates the node. -/
theorem Kept.isolates_iff_of_timely (h : Kept history s) {eviction : Eviction} {now : Nat}
    (hphase : s.phase = .checking eviction now) (htimely : s.Timely eviction now) :
    StepIsolates history s .thread ↔ StepFits history s .thread := by
  have hzero := h.unreachable_of_timely (congrArg HeartbeatPhase.eviction hphase) htimely
  unfold StepIsolates StepFits SplitBrainState.step
  rw [hphase]
  dsimp only
  rw [if_pos htimely, isolated_checkSplitBrain, hzero, decide_eq_decide]
  omega

theorem Kept.isolates_iff (h : Kept history s) (a : SplitBrainStep)
    (htimely : StepTimely history s a) : StepIsolates history s a ↔ StepFits history s a := by
  cases a with
  | thread =>
    cases hphase : s.phase with
    | checking eviction now =>
      unfold StepTimely at htimely
      rw [hphase] at htimely
      exact h.isolates_iff_of_timely hphase htimely
    | _ =>
      unfold StepIsolates StepFits SplitBrainState.step
      rw [hphase]
      exact iff_of_true rfl trivial
  | _ => exact iff_of_true rfl trivial

theorem Kept.isolates (h : Kept history s) (a : SplitBrainStep) (hfits : StepFits history s a) :
    StepIsolates history s a := by
  by_cases htimely : StepTimely history s a
  · exact (h.isolates_iff a htimely).mpr hfits
  · cases a with
    | thread =>
      unfold StepTimely StepFits at *
      unfold StepIsolates SplitBrainState.step
      cases hphase : s.phase with
      | checking eviction now =>
        rw [hphase] at htimely hfits
        dsimp only at htimely hfits ⊢
        rw [if_neg htimely, h.length_known] at hfits
        obtain ⟨hge, hle⟩ := h.silent_bounds now
        rw [isolated_checkSplitBrain, decide_eq_decide, h.length_known]
        omega
      | _ => rfl
    | _ => exact absurd trivial htimely

theorem kept_start (nodeId localHost localRegion : String) (restPort : UInt16) :
    Kept [] (start nodeId localHost localRegion restPort) := by
  refine ⟨fun id node hfind => ?_, fun _ hnow => ?_, fun _ heviction => ?_,
    fun _ heviction => ?_⟩
  · rw [start, UMap.find_empty] at hfind
    cases hfind
  · cases hnow
  · cases heviction
  · cases heviction

/-- In a run whose checks all fit, the node is isolated when the majority of the known nodes is
silent, and only then. In a run whose checks are timely nothing else will do. -/
theorem along_isolates (nodeId localHost localRegion : String) (restPort : UInt16)
    (steps : List SplitBrainStep) :
    (machine.Along StepFits [] (start nodeId localHost localRegion restPort) steps →
      machine.Along StepIsolates [] (start nodeId localHost localRegion restPort) steps) ∧
    (machine.Along StepTimely [] (start nodeId localHost localRegion restPort) steps →
      (machine.Along StepIsolates [] (start nodeId localHost localRegion restPort) steps ↔
        machine.Along StepFits [] (start nodeId localHost localRegion restPort) steps)) :=
  ⟨fun hfits => Machine.along_imp (I := Kept) (fun _ _ a h _ => h.step a)
    (fun _ _ a h => h.isolates a) (kept_start nodeId localHost localRegion restPort) hfits,
  fun htimely => Machine.along_congr_of (I := Kept) (fun _ _ a h => h.step a)
    (fun _ _ a h => h.isolates_iff a) (kept_start nodeId localHost localRegion restPort) htimely⟩

/-- One pass of the loop. -/
def round : List SplitBrainStep := List.replicate 4 .thread

/-- A heartbeat of a node. -/
def hear (nodeId : String) : SplitBrainStep :=
  .heartbeat ⟨nodeId, "10.0.0.2", 8600, 0, 0, 0, "", [], []⟩

def wait (seconds : Nat) : SplitBrainStep := .tick (seconds * 1000000000)

/-- A slow node keeps the timeout high until it is evicted, and the other one, silent for less, is
left. Then this one is heard again. -/
def lateEviction : List SplitBrainStep :=
  [hear "c", .updateRtts [("c", 12000)], wait 40, hear "b"] ++ round ++ wait 85 :: round ++
    hear "b" :: round

def oneHeard : List SplitBrainStep := hear "b" :: round ++ wait 30 :: round

/-- The node is isolated in the second round and comes back in the third. -/
theorem lateEviction_isolates :
    machine.Along StepIsolates [] (start "a" "10.0.0.1" "" 8600) lateEviction ∧
      (machine.run (start "a" "10.0.0.1" "" 8600) (lateEviction.take 13)).1.coordinator.isolated =
        true ∧
      (machine.run (start "a" "10.0.0.1" "" 8600) lateEviction).1.coordinator.isolated = false ∧
      (machine.Along StepIsolates [] (start "a" "10.0.0.1" "" 8600) oneHeard ↔
        machine.Along StepFits [] (start "a" "10.0.0.1" "" 8600) oneHeard) :=
  ⟨(along_isolates "a" "10.0.0.1" "" 8600 lateEviction).1 (by decide +kernel), by decide +kernel,
    by decide +kernel, (along_isolates "a" "10.0.0.1" "" 8600 oneHeard).2 (by decide +kernel)⟩

/-- One node is heard once; then the heartbeat thread goes its round every ten seconds. -/
def oneSilent : List SplitBrainStep :=
  hear "b" :: (List.replicate 8 (round ++ [wait 10])).flatten ++ round.take 3

/-- The only known node has been silent for eighty seconds. -/
theorem oneSilent_not_isolated :
    ¬ machine.Along StepIsolates [] (start "a" "10.0.0.1" "" 8600)
      (oneSilent ++ [SplitBrainStep.thread]) := by
  intro h
  obtain ⟨-, hcheck, -⟩ := Machine.along_append.mp h
  unfold StepIsolates at hcheck
  revert hcheck
  decide +kernel

end SplitBrainState

end Alpine
