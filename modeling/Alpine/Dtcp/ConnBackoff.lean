import Alpine.Lib.Run
import Alpine.Lib.UMap
import Mathlib.Data.Rat.Floor

/-!
# Back-off of connection requests

`AlpineDtcpConnConnector` enters a failed request under the address of the peer, and asks and resets
under the transport id of the peer. So the number of an address and that of a peer share one entry,
and a peer is delayed by its own failures if the two numbers are the same. What
`handleRequestFailure` and `allowReconnect` do is what the peer's own failures say exactly if the
failures under these numbers say the same (`along_delays_iff_fits`).
-/

namespace Alpine

open Lib

/-- An address and a port. -/
abbrev RemotePeer := Nat × Nat

/-- A number that `uniform_real_distribution` takes between its ends. -/
abbrev JitterDraw := {draw : ℚ // 0 ≤ draw ∧ draw < 1}

structure BackoffState where
  currentDelaySecs : ℚ
  nextAllowedAt : Nat
  active : Bool

abbrev BackoffIndex := UMap Nat BackoffState

/-- The calls, with the readings of the clock in nanoseconds. The connector takes a connection only
if the stack registers its transport. -/
inductive ConnectorCall where
  | handleRequestFailure (peer : RemotePeer) (now : Nat) (draw : JitterDraw)
  | receiveTransport (peer : RemotePeer) (registered : Bool)
  | allowReconnect (peer : RemotePeer) (now : Nat)

/-- A request that failed, and the delay that was set. -/
structure FailedRequest where
  peer : RemotePeer
  time : Nat
  jitteredDelay : ℚ

inductive BackoffRecord where
  | failed (request : FailedRequest)
  | connected (peer : RemotePeer)

namespace ConnectorCall

def peer : ConnectorCall → RemotePeer
  | handleRequestFailure peer _ _ => peer
  | receiveTransport peer _ => peer
  | allowReconnect peer _ => peer

end ConnectorCall

namespace BackoffRecord

def peer : BackoffRecord → RemotePeer
  | failed request => request.peer
  | connected peer => peer

end BackoffRecord

namespace ConnConnector

def INITIAL_BACKOFF_SECS : ℚ := 1
def MAX_BACKOFF_SECS : ℚ := 60
def BACKOFF_MULTIPLIER : ℚ := 2
def JITTER_FACTOR : ℚ := 1 / 4

/-- The number that a delay is multiplied by. -/
def jitter (draw : JitterDraw) : ℚ := 1 - JITTER_FACTOR + draw.val * (2 * JITTER_FACTOR)

def applyJitter (delaySecs : ℚ) (draw : JitterDraw) : ℚ := delaySecs * jitter draw

/-- The cast to milliseconds, in nanoseconds. -/
def waitOf (jitteredDelay : ℚ) : Nat := ⌊jitteredDelay * 1000⌋₊ * 1000000

/-- Also the delay, which is logged. -/
def handleRequestFailure (index : BackoffIndex) (ipAddress : Nat) (now : Nat) (draw : JitterDraw) :
    ℚ × BackoffIndex :=
  let state := (index.find ipAddress).getD ⟨INITIAL_BACKOFF_SECS, 0, false⟩
  let jitteredDelay := applyJitter state.currentDelaySecs draw
  (jitteredDelay, index.assign ipAddress
    ⟨min (state.currentDelaySecs * BACKOFF_MULTIPLIER) MAX_BACKOFF_SECS,
      now + waitOf jitteredDelay, true⟩)

def allowReconnect (index : BackoffIndex) (peerId now : Nat) : Bool :=
  match index.find peerId with
  | none => true
  | some state => if state.active = false then true else now ≥ state.nextAllowedAt

def resetBackoff (index : BackoffIndex) (peerId : Nat) : BackoffIndex :=
  match index.find peerId with
  | none => index
  | some state =>
    index.assign peerId { state with currentDelaySecs := INITIAL_BACKOFF_SECS, active := false }

def receiveTransport (index : BackoffIndex) (peerId : Nat) (registered : Bool) :
    Bool × BackoffIndex :=
  if registered then (true, resetBackoff index peerId) else (false, index)

variable (peerId : RemotePeer → Nat)

def step (index : BackoffIndex) : ConnectorCall → BackoffIndex × List BackoffRecord
  | .handleRequestFailure peer now draw =>
    ((handleRequestFailure index peer.1 now draw).2,
      [.failed ⟨peer, now, (handleRequestFailure index peer.1 now draw).1⟩])
  | .receiveTransport peer registered =>
    ((receiveTransport index (peerId peer) registered).2,
      if registered then [.connected peer] else [])
  | .allowReconnect _ _ => (index, [])

def machine : Machine BackoffIndex ConnectorCall BackoffRecord where
  step := step peerId

/-! ## What the calls say -/

/-- The failures of some peers since some peer connected. -/
def failuresSince (ofPeer resets : RemotePeer → Bool) (history : List BackoffRecord) :
    List FailedRequest :=
  history.foldl (fun failures record =>
    match record with
    | .failed request => if ofPeer request.peer then failures ++ [request] else failures
    | .connected peer => if resets peer then [] else failures) []

/-- The failures of a peer since it connected. -/
def peerFailures (peer : RemotePeer) (history : List BackoffRecord) : List FailedRequest :=
  failuresSince (· = peer) (· = peer) history

/-- The failures through any port of an address, since a peer with the number of the address as its
id connected. -/
def addressFailures (ipAddress : Nat) (history : List BackoffRecord) : List FailedRequest :=
  failuresSince (·.1 = ipAddress) (peerId · = ipAddress) history

/-- The delay after some failures. -/
def backoffDelay (failures : Nat) : ℚ :=
  min (INITIAL_BACKOFF_SECS * BACKOFF_MULTIPLIER ^ failures) MAX_BACKOFF_SECS

/-- Whether the delay of the last failure has not elapsed. -/
def Waits (failures : List FailedRequest) (now : Nat) : Prop :=
  ∃ request, failures.getLast? = some request ∧ now < request.time + waitOf request.jitteredDelay

/-- A failure sets the delay of the peer's own failures, and a peer is held back exactly while the
delay of its last failure has not elapsed. -/
def Delays (history : List BackoffRecord) (index : BackoffIndex) : ConnectorCall → Prop
  | .handleRequestFailure peer now draw =>
    (handleRequestFailure index peer.1 now draw).1 =
      applyJitter (backoffDelay (peerFailures peer history).length) draw
  | .receiveTransport _ _ => True
  | .allowReconnect peer now =>
    allowReconnect index (peerId peer) now = false ↔ Waits (peerFailures peer history) now

/-- The failures of the address are as many as those of the peer, or both have reached the longest
delay; the failures at the address with the number of the peer's id wait exactly if those of the
peer do. -/
def Fits (history : List BackoffRecord) (_ : BackoffIndex) : ConnectorCall → Prop
  | .handleRequestFailure peer _ _ =>
    (addressFailures peerId peer.1 history).length = (peerFailures peer history).length ∨
      6 ≤ (addressFailures peerId peer.1 history).length ∧ 6 ≤ (peerFailures peer history).length
  | .receiveTransport _ _ => True
  | .allowReconnect peer now =>
    Waits (addressFailures peerId (peerId peer) history) now ↔ Waits (peerFailures peer history) now

/-! ## Delays -/

theorem jitter_pos (draw : JitterDraw) : 0 < jitter draw := by
  obtain ⟨draw, hdraw, -⟩ := draw
  unfold jitter JITTER_FACTOR
  linarith

theorem backoffDelay_zero : backoffDelay 0 = INITIAL_BACKOFF_SECS := by
  norm_num [backoffDelay, INITIAL_BACKOFF_SECS, MAX_BACKOFF_SECS]

theorem backoffDelay_succ (n : Nat) :
    backoffDelay (n + 1) = min (backoffDelay n * BACKOFF_MULTIPLIER) MAX_BACKOFF_SECS := by
  unfold backoffDelay INITIAL_BACKOFF_SECS BACKOFF_MULTIPLIER MAX_BACKOFF_SECS
  rw [pow_succ, min_mul_of_nonneg _ _ (by norm_num : (0 : ℚ) ≤ 2), min_assoc, mul_assoc]
  norm_num

theorem backoffDelay_of_lt {n : Nat} (hn : n < 6) : backoffDelay n = 2 ^ n := by
  have hpow : (2 : ℚ) ^ n ≤ 2 ^ 5 := pow_le_pow_right₀ (by norm_num) (by omega)
  unfold backoffDelay INITIAL_BACKOFF_SECS BACKOFF_MULTIPLIER MAX_BACKOFF_SECS
  rw [one_mul, min_eq_left]
  linarith

theorem backoffDelay_of_le {n : Nat} (hn : 6 ≤ n) : backoffDelay n = 60 := by
  have hpow : (2 : ℚ) ^ 6 ≤ 2 ^ n := pow_le_pow_right₀ (by norm_num) hn
  unfold backoffDelay INITIAL_BACKOFF_SECS BACKOFF_MULTIPLIER MAX_BACKOFF_SECS
  rw [one_mul, min_eq_right]
  linarith

/-- The delay tells how many failures there are, up to the longest one. -/
theorem backoffDelay_eq_iff (m n : Nat) :
    backoffDelay m = backoffDelay n ↔ m = n ∨ 6 ≤ m ∧ 6 ≤ n := by
  have hne : ∀ k < 6, (2 : ℚ) ^ k ≠ 60 := by
    intro k hk heq
    have hpow : (2 : ℚ) ^ k ≤ 2 ^ 5 := pow_le_pow_right₀ (by norm_num) (by omega)
    linarith
  rcases Nat.lt_or_ge m 6 with hm | hm <;> rcases Nat.lt_or_ge n 6 with hn | hn
  · rw [backoffDelay_of_lt hm, backoffDelay_of_lt hn, pow_right_inj₀ (by norm_num) (by norm_num)]
    omega
  · rw [backoffDelay_of_lt hm, backoffDelay_of_le hn]
    exact iff_of_false (hne m hm) (by omega)
  · rw [backoffDelay_of_le hm, backoffDelay_of_lt hn]
    exact iff_of_false (hne n hn).symm (by omega)
  · rw [backoffDelay_of_le hm, backoffDelay_of_le hn]
    exact iff_of_true rfl (.inr ⟨hm, hn⟩)

/-! ## The entries -/

/-- The entry of a number says what some failures say. -/
structure Entered (index : BackoffIndex) (number : Nat) (failures : List FailedRequest) : Prop where
  delay : ((index.find number).getD ⟨INITIAL_BACKOFF_SECS, 0, false⟩).currentDelaySecs =
    backoffDelay failures.length
  waits : ∀ now, allowReconnect index number now = false ↔ Waits failures now

variable {peerId} {index index' : BackoffIndex} {number : Nat} {failures : List FailedRequest}

theorem Entered.congr (h : Entered index number failures)
    (hfind : index'.find number = index.find number) : Entered index' number failures := by
  refine ⟨by rw [hfind]; exact h.delay, fun now => ?_⟩
  rw [← h.waits, allowReconnect, allowReconnect, hfind]

theorem not_waits_nil (now : Nat) : ¬ Waits [] now := nofun

theorem waits_concat (failures : List FailedRequest) (request : FailedRequest) (now : Nat) :
    Waits (failures ++ [request]) now ↔ now < request.time + waitOf request.jitteredDelay := by
  rw [Waits, List.getLast?_concat]
  simp

theorem entered_empty (number : Nat) : Entered ∅ number [] :=
  ⟨backoffDelay_zero.symm, fun now => iff_of_false nofun (not_waits_nil now)⟩

/-- A failure adds to those of its address. -/
theorem Entered.fail (h : Entered index number failures) (peer : RemotePeer) (now : Nat)
    (draw : JitterDraw) (hnumber : peer.1 = number) :
    Entered (handleRequestFailure index peer.1 now draw).2 number
      (failures ++ [⟨peer, now, (handleRequestFailure index peer.1 now draw).1⟩]) := by
  subst hnumber
  have hfind : (handleRequestFailure index peer.1 now draw).2.find peer.1 =
      some ⟨backoffDelay (failures.length + 1),
        now + waitOf (handleRequestFailure index peer.1 now draw).1, true⟩ := by
    rw [backoffDelay_succ, ← h.delay, handleRequestFailure]
    dsimp only
    rw [UMap.find_assign, if_pos rfl]
  refine ⟨?_, fun later => ?_⟩
  · rw [hfind, List.length_append]
    rfl
  · rw [allowReconnect, hfind, waits_concat]
    simp

theorem find_handleRequestFailure_of_ne (ipAddress now : Nat) (draw : JitterDraw)
    (hne : number ≠ ipAddress) :
    (handleRequestFailure index ipAddress now draw).2.find number = index.find number := by
  rw [handleRequestFailure]
  dsimp only
  rw [UMap.find_assign, if_neg hne]

/-- A reset leaves no failure. -/
theorem entered_resetBackoff (index : BackoffIndex) (number : Nat) :
    Entered (resetBackoff index number) number [] := by
  unfold resetBackoff
  cases hfind : index.find number with
  | none =>
    refine ⟨?_, fun now => ?_⟩
    · rw [hfind]
      exact backoffDelay_zero.symm
    · rw [allowReconnect, hfind]
      exact iff_of_false nofun (not_waits_nil now)
  | some state =>
    dsimp only
    have hreset : UMap.find (UMap.assign index number
        { state with currentDelaySecs := INITIAL_BACKOFF_SECS, active := false }) number =
          some ⟨INITIAL_BACKOFF_SECS, state.nextAllowedAt, false⟩ := by
      rw [UMap.find_assign, if_pos rfl]
    refine ⟨?_, fun now => ?_⟩
    · rw [hreset]
      exact backoffDelay_zero.symm
    · rw [allowReconnect, hreset]
      exact iff_of_false nofun (not_waits_nil now)

theorem find_resetBackoff_of_ne (peerId : Nat) (hne : number ≠ peerId) :
    (resetBackoff index peerId).find number = index.find number := by
  unfold resetBackoff
  split
  · rfl
  · rw [UMap.find_assign, if_neg hne]

/-! ## Runs -/

theorem failuresSince_failed (ofPeer resets : RemotePeer → Bool) (history : List BackoffRecord)
    (request : FailedRequest) : failuresSince ofPeer resets (history ++ [.failed request]) =
      if ofPeer request.peer then failuresSince ofPeer resets history ++ [request]
      else failuresSince ofPeer resets history := by
  rw [failuresSince, List.foldl_concat]
  rfl

theorem failuresSince_connected (ofPeer resets : RemotePeer → Bool) (history : List BackoffRecord)
    (peer : RemotePeer) : failuresSince ofPeer resets (history ++ [.connected peer]) =
      if resets peer then [] else failuresSince ofPeer resets history := by
  rw [failuresSince, List.foldl_concat]
  rfl

/-- The entries are those of the failures at the addresses. -/
def EachEntered (peerId : RemotePeer → Nat) (history : List BackoffRecord) (index : BackoffIndex) :
    Prop :=
  ∀ number, Entered index number (addressFailures peerId number history)

theorem eachEntered_step {history : List BackoffRecord} (h : EachEntered peerId history index)
    (c : ConnectorCall) :
    EachEntered peerId (history ++ ((machine peerId).step index c).2)
      ((machine peerId).step index c).1 := by
  intro number
  cases c with
  | handleRequestFailure peer now draw =>
    show Entered (handleRequestFailure index peer.1 now draw).2 number
      (failuresSince _ _ (history ++ [.failed _]))
    rw [failuresSince_failed]
    by_cases hnumber : peer.1 = number
    · rw [if_pos (decide_eq_true hnumber)]
      exact (h number).fail peer now draw hnumber
    · rw [if_neg (by simpa using hnumber)]
      exact (h number).congr (find_handleRequestFailure_of_ne _ _ _ (Ne.symm hnumber))
  | receiveTransport peer registered =>
    cases registered with
    | false =>
      rw [show ((machine peerId).step index (.receiveTransport peer false)).2 = [] from rfl,
        List.append_nil]
      exact h number
    | true =>
      show Entered (resetBackoff index (peerId peer)) number
        (failuresSince _ _ (history ++ [.connected peer]))
      rw [failuresSince_connected]
      by_cases hnumber : peerId peer = number
      · rw [if_pos (decide_eq_true hnumber), hnumber]
        exact entered_resetBackoff index number
      · rw [if_neg (by simpa using hnumber)]
        exact (h number).congr (find_resetBackoff_of_ne _ (Ne.symm hnumber))
  | allowReconnect peer now =>
    rw [show ((machine peerId).step index (.allowReconnect peer now)).2 = [] from rfl,
      List.append_nil]
    exact h number

theorem delays_iff_fits {history : List BackoffRecord} (h : EachEntered peerId history index)
    (c : ConnectorCall) : Delays peerId history index c ↔ Fits peerId history index c := by
  cases c with
  | handleRequestFailure peer now draw =>
    have hdelay := (h peer.1).delay
    show applyJitter ((index.find peer.1).getD _).currentDelaySecs draw = applyJitter _ draw ↔ _
    rw [hdelay, applyJitter, applyJitter, mul_left_inj' (jitter_pos draw).ne', backoffDelay_eq_iff]
    rfl
  | receiveTransport peer registered => exact Iff.rfl
  | allowReconnect peer now =>
    show (allowReconnect index (peerId peer) now = false ↔ _) ↔ _
    rw [(h (peerId peer)).waits]
    rfl

/-- In a run of calls for any peers each delay is that of the peer's own failures exactly if the
failures under the numbers that the connector uses say the same. -/
theorem along_delays_iff_fits (peerId : RemotePeer → Nat) (calls : List ConnectorCall) :
    (machine peerId).Along (Delays peerId) [] ∅ calls ↔
      (machine peerId).Along (Fits peerId) [] ∅ calls :=
  Machine.along_congr (I := EachEntered peerId) (fun _ _ c h _ => eachEntered_step h c)
    (fun _ _ c h => delays_iff_fits h c) entered_empty

theorem leastDraw : (0 : ℚ) ≤ 0 ∧ (0 : ℚ) < 1 := by norm_num

/-- A peer whose request failed just now is not held back. -/
theorem freshFailure_not_delays :
    ¬ (machine fun _ => 7).Along (Delays fun _ => 7) [] ∅
      [.handleRequestFailure (167772161, 4000) 0 ⟨0, leastDraw⟩,
        .allowReconnect (167772161, 4000) 0] := by
  rintro ⟨-, hallow, -⟩
  have hwaits : Waits (peerFailures (167772161, 4000)
      [.failed ⟨(167772161, 4000), 0, applyJitter INITIAL_BACKOFF_SECS ⟨0, leastDraw⟩⟩]) 0 := by
    refine ⟨_, rfl, ?_⟩
    norm_num [waitOf, applyJitter, jitter, INITIAL_BACKOFF_SECS, JITTER_FACTOR]
  exact absurd (hallow.mpr hwaits) (by decide)

end ConnConnector

end Alpine
